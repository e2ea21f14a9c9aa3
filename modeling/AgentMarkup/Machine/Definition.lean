import AgentMarkup.Table

/-!
Definitions of state machines: the states, the one to start in, and for each source
state the target of every event. A definition is closed if it mentions only states that
it declares.
-/

set_option autoImplicit false
set_option relaxedAutoImplicit false

namespace AgentMarkup.Machine

/-- A definition as written; `transitions` takes a source and an event to the target. -/
structure Definition where
  initial : String
  states : List String
  transitions : Table (Table String)
deriving DecidableEq

inductive DefinitionFault where
  | noStates
  | duplicateState (state : String)
  | undeclaredInitial (state : String)
  | undeclaredSource (state : String)
  | undeclaredTarget (target event source : String)
deriving DecidableEq

namespace DefinitionFault

def reason : DefinitionFault → String
  | .noStates => "no states declared"
  | .duplicateState state => s!"duplicate state '{state}'"
  | .undeclaredInitial state => s!"initial state '{state}' not in states list"
  | .undeclaredSource state => s!"transition source '{state}' not in states list"
  | .undeclaredTarget target event source =>
    s!"transition target '{target}' for '{event}' in '{source}' not in states list"

def message (e : DefinitionFault) : String :=
  s!"invalid machine definition: {e.reason}"

end DefinitionFault

namespace Definition

def hasState (d : Definition) (state : String) : Bool :=
  d.states.contains state

/-- The first state that repeats one before it; `seen` holds those already met. -/
def firstRepeated (seen : List String) : List String → Option String
  | [] => none
  | state :: rest => if seen.contains state then some state else firstRepeated (state :: seen) rest

/-- The first fault of a row: its source, or else its first undeclared target. -/
def rowFault? (d : Definition) (row : String × Table String) : Option DefinitionFault :=
  if !d.hasState row.1 then some (.undeclaredSource row.1)
  else row.2.entries.findSome? fun entry ↦
    if d.hasState entry.2 then none else some (.undeclaredTarget entry.2 entry.1 row.1)

/-- The first fault of a definition; rows are looked through in source order. -/
def fault? (d : Definition) : Option DefinitionFault :=
  if d.states = [] then some .noStates
  else
    match firstRepeated [] d.states with
    | some state => some (.duplicateState state)
    | none =>
      if !d.hasState d.initial then some (.undeclaredInitial d.initial)
      else d.transitions.entries.findSome? d.rowFault?

def target? (d : Definition) (state event : String) : Option String :=
  (d.transitions.get? state).bind (·.get? event)

/-- Events accepted in a state, in order. -/
def eventsFrom (d : Definition) (state : String) : List String :=
  match d.transitions.get? state with
  | some row => row.keys
  | none => []

end Definition

end AgentMarkup.Machine
