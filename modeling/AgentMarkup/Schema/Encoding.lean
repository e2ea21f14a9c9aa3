import AgentMarkup.Document.Encoding
import AgentMarkup.Schema.Basic

/-!
Schemas as data. In a specification the default, the description and the payload types
appear only if they are given; a default read as null is no default.
-/

set_option autoImplicit false
set_option relaxedAutoImplicit false

namespace AgentMarkup

def ValueType.decode : Datum → Decoded ValueType :=
  Datum.asName ValueType.ofName?

namespace AttributeSpec

def toJson (spec : AttributeSpec) : Json :=
  .fields [("type", some (.str spec.type.name)), ("required", some (.bool spec.required)),
    ("default", spec.default), ("description", spec.description.map .str)]

def decode (d : Datum) : Decoded AttributeSpec := do
  let fields ← d.asFields ["type", "required", "default", "description"]
  let type ← requiredField fields "type" ValueType.decode
  let required ← defaultField fields "required" false Datum.asBool
  let default ← defaultField fields "default" none (Datum.asOptional Datum.asJson)
  let description ← defaultField fields "description" none (Datum.asOptional Datum.asText)
  return ⟨type, required, default, description⟩

end AttributeSpec

namespace EventSpec

def toJson (spec : EventSpec) : Json :=
  .fields [("name", some (.str spec.name)), ("description", spec.description.map .str),
    ("payload", spec.payload.map Table.toJson)]

def decode (d : Datum) : Decoded EventSpec := do
  let fields ← d.asFields ["name", "description", "payload"]
  let name ← requiredField fields "name" Datum.asText
  let description ← defaultField fields "description" none (Datum.asOptional Datum.asText)
  let payload ← defaultField fields "payload" none
    (Datum.asOptional (Datum.asTable Datum.asText))
  return ⟨name, description, payload⟩

end EventSpec

namespace Schema

def toJson (s : Schema) : Json :=
  .obj [("kind", .str s.kind),
    ("attributes", .obj (s.attributes.entries.map fun entry ↦ (entry.1, entry.2.toJson))),
    ("states", .strs s.states),
    ("events", .arr (s.events.map EventSpec.toJson))]

def decode (d : Datum) : Decoded Schema := do
  let fields ← d.asFields ["kind", "attributes", "states", "events"]
  let kind ← defaultField fields "kind" "" Datum.asText
  let attributes ← defaultField fields "attributes" .empty (Datum.asTable AttributeSpec.decode)
  let states ← defaultField fields "states" [] (Datum.asList Datum.asText)
  let events ← defaultField fields "events" [] (Datum.asList EventSpec.decode)
  return ⟨kind, attributes, states, events⟩

end Schema

end AgentMarkup
