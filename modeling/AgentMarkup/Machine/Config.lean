import AgentMarkup.Document.Encoding
import AgentMarkup.Machine.Canonical
import AgentMarkup.Machine.Checksum

/-!
Machine configurations: a closed definition under a name, with the checksum of its
canonical form. Configurations are read from data by way of their definitions.
-/

set_option autoImplicit false
set_option relaxedAutoImplicit false

namespace AgentMarkup.Machine

namespace Definition

def checksum (d : Definition) : String :=
  Checksum.hexDigits (Checksum.crc32c d.canonical.toUTF8.toList)

def decode (d : Datum) : Decoded Definition := do
  let fields ← d.asFields ["initial", "states", "transitions"]
  let initial ← requiredField fields "initial" Datum.asText
  let states ← requiredField fields "states" (Datum.asList Datum.asText)
  let transitions ← defaultField fields "transitions" .empty
    (Datum.asTable (Datum.asTable Datum.asText))
  return ⟨initial, states, transitions⟩

def toJson (d : Definition) : Json :=
  .obj [("initial", .str d.initial), ("states", .strs d.states),
    ("transitions", .obj (d.transitions.entries.map fun row ↦ (row.1, row.2.toJson)))]

end Definition

structure Config where
  name : String
  definition : Definition
  checksum : String
deriving DecidableEq

/-- Why data are no configuration. -/
inductive ConfigFault where
  | undecodable (fault : DecodeFault)
  | invalid (fault : DefinitionFault)
deriving DecidableEq

namespace Config

/-- A configuration of a definition that is known to be closed. -/
def ofClosed (name : String) (d : Definition) : Config :=
  ⟨name, d, d.checksum⟩

def ofDefinition (name : String) (d : Definition) : Except DefinitionFault Config :=
  match d.fault? with
  | some fault => .error fault
  | none => .ok (ofClosed name d)

def ofJson (name : String) (value : Json) : Except ConfigFault Config :=
  match Definition.decode (.ofJson value) with
  | .error fault => .error (.undecodable fault)
  | .ok d => (ofDefinition name d).mapError .invalid

def toJson (c : Config) : Json :=
  c.definition.toJson

def initial (c : Config) : String := c.definition.initial

def states (c : Config) : List String := c.definition.states

def hasState (c : Config) (state : String) : Bool := c.definition.hasState state

def target? (c : Config) (state event : String) : Option String := c.definition.target? state event

def eventsFrom (c : Config) (state : String) : List String := c.definition.eventsFrom state

end Config

end AgentMarkup.Machine
