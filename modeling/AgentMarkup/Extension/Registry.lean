import AgentMarkup.Extension.Basic
import AgentMarkup.Log
import AgentMarkup.Schema.Builtin
import AgentMarkup.Text.Quoted

/-!
The registry of extensions and the primitives in force. Over the built-in schema of a
kind lie the layers registered for it, in registration order, and the last one is seen.
Unregistering an extension takes its layers out wherever they lie, so what was below
them is seen again. A rendering runs the hooks of all extensions one after another.
-/

set_option autoImplicit false
set_option relaxedAutoImplicit false

namespace AgentMarkup

/-- Where a schema comes from. -/
inductive SchemaSource where
  | builtin
  | adHoc
  | extension (name : String)
deriving DecidableEq

def SchemaSource.display : SchemaSource → String
  | .builtin => "builtin"
  | .adHoc => "ad-hoc"
  | .extension name => s!"extension '{name}'"

/-- A registered schema over those registered before it. -/
structure Layer where
  source : SchemaSource
  schema : Schema

inductive RegistrationFault where
  | invalid (fault : ExtensionFault)
  | exists (name : String)
deriving DecidableEq

def RegistrationFault.message : RegistrationFault → String
  | .invalid fault => fault.message
  | .exists name => s!"extension already registered: {name}"

/-- A rendering while its hooks run: the values that they share, and the calls made so far. -/
structure Rendering where
  memory : Table Json
  calls : List (Middleware × RenderContext)

def Rendering.invoke (s : Rendering) (context : RenderContext) (m : Middleware) : Rendering :=
  ⟨m.handler context s.memory, s.calls ++ [(m, context)]⟩

/-- The live extensions, their names in registration order, and the layers of each kind
in registration order. -/
structure Registry where
  extensions : Table Extension
  order : List String
  overlays : Table (List Layer)

namespace Registry

def empty : Registry := ⟨.empty, [], .empty⟩

instance : Inhabited Registry := ⟨empty⟩

/-- Layers of a kind, the last one on top. -/
def layers (r : Registry) (kind : String) : List Layer :=
  (r.overlays.get? kind).getD []

/-- Puts a layer on top of its kind; its schema takes that kind. -/
def pushLayer (r : Registry) (source : SchemaSource) (kind : String) (schema : Schema) :
    Registry :=
  { r with
    overlays := r.overlays.insert kind (r.layers kind ++ [⟨source, { schema with kind }⟩]) }

def register (r : Registry) (e : Extension) : Except RegistrationFault Registry :=
  match e.fault? with
  | some fault => .error (.invalid fault)
  | none =>
    if r.extensions.contains e.name then .error (.exists e.name)
    else
      let layered := e.primitives.entries.foldl
        (fun r entry ↦ r.pushLayer (.extension e.name) entry.1 entry.2) r
      .ok { layered with
        extensions := layered.extensions.insert e.name e
        order := layered.order ++ [e.name] }

def unregister (r : Registry) (name : String) : Registry :=
  if r.extensions.contains name then
    { extensions := r.extensions.erase name
      order := r.order.filter (· ≠ name)
      overlays := r.overlays.filterMap fun _ stack ↦
        match stack.filter (·.source ≠ .extension name) with
        | [] => none
        | rest => some rest }
  else r

/-- Puts a schema of no extension on top of its kind. -/
def registerPrimitive (r : Registry) (kind : String) (schema : Schema) : Registry :=
  r.pushLayer .adHoc kind schema

def extension? (r : Registry) (name : String) : Option Extension :=
  r.extensions.get? name

/-- The schema in force for a kind. -/
def primitive? (r : Registry) (kind : String) : Option Schema :=
  match (r.layers kind).getLast? with
  | some layer => some layer.schema
  | none => Schema.builtin? kind

def hasPrimitive (r : Registry) (kind : String) : Bool :=
  (r.primitive? kind).isSome

/-- Where the schema in force for a kind comes from. -/
def sourceOf? (r : Registry) (kind : String) : Option SchemaSource :=
  match (r.layers kind).getLast? with
  | some layer => some layer.source
  | none => (Schema.builtin? kind).map fun _ ↦ .builtin

/-- All schemas in force under their kinds. -/
def primitives (r : Registry) : Table Schema :=
  r.overlays.entries.foldl
    (fun merged entry ↦
      match entry.2.getLast? with
      | some layer => merged.insert entry.1 layer.schema
      | none => merged)
    Schema.builtins

/-- The live extensions in name order. -/
def catalogue (r : Registry) : List Extension :=
  r.extensions.values

/-- The live extensions in registration order. -/
def registered (r : Registry) : List Extension :=
  r.order.filterMap r.extensions.get?

/-- All render hooks, of higher priority first and otherwise in registration order. -/
def middleware (r : Registry) : List Middleware :=
  (r.registered.flatMap Extension.middleware).mergeSort fun a b ↦ b.priority ≤ a.priority

/-- Runs all render hooks one after another, each on the values that those before it left. -/
def render (r : Registry) (context : RenderContext) (memory : Table Json) : Rendering :=
  r.middleware.foldl (·.invoke context ·) ⟨memory, []⟩

/-- The calls of render hooks that a rendering makes, in their order. -/
def runMiddleware (r : Registry) (context : RenderContext) : List (Middleware × RenderContext) :=
  (r.render context .empty).calls

/-- Theme values of all live extensions, later registrations over earlier ones. -/
def theme (r : Registry) : Table String :=
  r.registered.foldl
    (fun merged e ↦ e.theme.entries.foldl (fun t entry ↦ t.insert entry.1 entry.2) merged) .empty

def inspect (r : Registry) : String :=
  Text.quoteRecord "ExtensionRegistry"
    [("extensions", Text.quoteList r.order), ("overlaid", toString r.overlays.size)]

end Registry

def Middleware.inspect (m : Middleware) : String :=
  "Middleware \x7b name: " ++ Text.quote m.name ++ ", priority: " ++ toString m.priority ++
    ", .. \x7d"

namespace Registry

/-- The warning that a layer over a built-in primitive gives. -/
def overrideLog (source : SchemaSource) (kind : String) : List LogEntry :=
  if (Schema.builtin? kind).isSome then
    [⟨.warn, s!"{source.display} overrides built-in primitive '{kind}'"⟩]
  else []

def registerLog (r : Registry) (e : Extension) : List LogEntry :=
  match r.register e with
  | .error _ => []
  | .ok _ =>
    e.primitives.keys.flatMap (overrideLog (.extension e.name)) ++
      [⟨.info, s!"registered extension {e.name} v{e.version} ({e.primitives.size} primitives, " ++
        s!"{e.middleware.length} middleware)"⟩]

def unregisterLog (r : Registry) (name : String) : List LogEntry :=
  if r.extensions.contains name then [⟨.info, s!"unregistered extension {name}"⟩] else []

def registerPrimitiveLog (kind : String) : List LogEntry :=
  ⟨.debug, s!"registering primitive '{kind}'"⟩ :: overrideLog .adHoc kind

def clearLog : List LogEntry :=
  [⟨.info, "cleared extension registry"⟩]

def runMiddlewareLog (r : Registry) : List LogEntry :=
  r.middleware.map fun m ↦ ⟨.debug, s!"running middleware {m.name}"⟩

end Registry

end AgentMarkup
