import AgentMarkup.Document.Node
import AgentMarkup.Schema.Encoding

/-!
Extensions: named bundles of primitives, render hooks and theme values. A manifest
states all of them but the hooks. What a hook does is its own affair: its handler is given
what is rendered, and acts on values that all hooks share.
-/

set_option autoImplicit false
set_option relaxedAutoImplicit false

namespace AgentMarkup

/-- What a render hook is given. -/
structure RenderContext where
  tree : Node
  adapter : String
  platform : String
  options : Json

/-- What a render hook makes of the values that hooks share. -/
abbrev Handler := RenderContext → Table Json → Table Json

/-- What a render hook is known by; hooks of higher priority run first. -/
structure HookLabel where
  name : String
  priority : Int
deriving DecidableEq

structure Middleware extends HookLabel where
  handler : Handler

structure Extension where
  name : String
  version : String
  primitives : Table Schema
  middleware : List Middleware
  theme : Table String

inductive ExtensionFault where
  | unnamed
  | kindMismatch (key kind : String)
deriving DecidableEq

namespace ExtensionFault

def reason : ExtensionFault → String
  | .unnamed => "extension must have a name and a version"
  | .kindMismatch key kind => s!"primitive '{key}' declares kind '{kind}'"

def message (e : ExtensionFault) : String :=
  s!"invalid extension: {e.reason}"

end ExtensionFault

namespace Extension

def bare (name version : String) : Extension := ⟨name, version, .empty, [], .empty⟩

/-- Adds a primitive under its own kind. -/
def withPrimitive (e : Extension) (schema : Schema) : Extension :=
  { e with primitives := e.primitives.insert schema.kind schema }

/-- Adds a render hook behind the others; one without a handler leaves all values as they are. -/
def withMiddleware (e : Extension) (label : HookLabel)
    (handler : Handler := fun _ memory ↦ memory) : Extension :=
  { e with middleware := e.middleware ++ [⟨label, handler⟩] }

def withTheme (e : Extension) (key value : String) : Extension :=
  { e with theme := e.theme.insert key value }

/-- The first fault of an extension: a blank name or version, or a primitive whose
schema names a kind other than its key. -/
def fault? (e : Extension) : Option ExtensionFault :=
  if Text.isBlankText e.name || Text.isBlankText e.version then some .unnamed
  else e.primitives.entries.findSome? fun entry ↦
    if entry.2.kind = "" ∨ entry.2.kind = entry.1 then none
    else some (.kindMismatch entry.1 entry.2.kind)

def toJson (e : Extension) : Json :=
  .obj [("name", .str e.name), ("version", .str e.version),
    ("primitives", .obj (e.primitives.entries.map fun entry ↦ (entry.1, entry.2.toJson))),
    ("theme", e.theme.toJson)]

def decode (d : Datum) : Decoded Extension := do
  let fields ← d.asFields ["name", "version", "primitives", "theme"]
  let name ← requiredField fields "name" Datum.asText
  let version ← requiredField fields "version" Datum.asText
  let primitives ← defaultField fields "primitives" .empty (Datum.asTable Schema.decode)
  let theme ← defaultField fields "theme" .empty (Datum.asTable Datum.asText)
  return ⟨name, version, primitives, [], theme⟩

end Extension

end AgentMarkup
