import AgentMarkup.Machine.Definition

/-!
The canonical form of a definition. Names carry their length in bytes and lists their
number of members, so no name can pass for something else.
-/

set_option autoImplicit false
set_option relaxedAutoImplicit false

namespace AgentMarkup.Machine

namespace Canonical

def name (s : String) : String :=
  toString s.utf8ByteSize ++ ":" ++ s ++ "\n"

def count (n : Nat) : String :=
  toString n ++ "\n"

def row (entry : String × Table String) : String :=
  name entry.1 ++ count entry.2.size ++
    String.join (entry.2.entries.map fun step ↦ name step.1 ++ name step.2)

end Canonical

/-- The initial state, the states, then the rows in source order, each with its events
and their targets. -/
def Definition.canonical (d : Definition) : String :=
  Canonical.name d.initial ++
    (Canonical.count d.states.length ++ String.join (d.states.map Canonical.name)) ++
    (Canonical.count d.transitions.size ++
      String.join (d.transitions.entries.map Canonical.row))

end AgentMarkup.Machine
