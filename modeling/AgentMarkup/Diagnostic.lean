import AgentMarkup.Datum.Decode

/-!
Problems found in a document. A problem is placed by the path of a node, by a byte
offset into the document, or not at all.
-/

set_option autoImplicit false
set_option relaxedAutoImplicit false

namespace AgentMarkup

structure Diagnostic where
  message : String
  path : Option String
  position : Option Nat
deriving DecidableEq

namespace Diagnostic

def bare (message : String) : Diagnostic := ⟨message, none, none⟩

def atPath (message path : String) : Diagnostic := ⟨message, some path, none⟩

def atPosition (message : String) (position : Nat) : Diagnostic := ⟨message, none, some position⟩

/-- The message and its place; a path that is not empty goes before a position. -/
def display (d : Diagnostic) : String :=
  match d.path, d.position with
  | some path, position =>
    if path ≠ "" then d.message ++ " (at " ++ path ++ ")" else d.message ++ offset position
  | none, position => d.message ++ offset position
where
  offset : Option Nat → String
    | some position => s!" (at offset {position})"
    | none => ""

def decode (d : Datum) : Decoded Diagnostic := do
  let fields ← d.asFields ["message", "path", "position"]
  let message ← requiredField fields "message" Datum.asText
  let path ← defaultField fields "path" none (Datum.asOptional Datum.asText)
  let position ← defaultField fields "position" none (Datum.asOptional Datum.asCount)
  return ⟨message, path, position⟩

def toJson (d : Diagnostic) : Json :=
  .fields [("message", some (.str d.message)), ("path", d.path.map .str),
    ("position", d.position.map .nat)]

end Diagnostic

end AgentMarkup
