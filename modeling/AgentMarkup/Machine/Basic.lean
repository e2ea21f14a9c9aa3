import AgentMarkup.Log
import AgentMarkup.Machine.Config

/-!
Running machines: a configuration, the current state and the states before it. An event
that the current state does not accept is refused and changes nothing.
-/

set_option autoImplicit false
set_option relaxedAutoImplicit false

namespace AgentMarkup

/-- One change of state, as it is announced. -/
structure Transition where
  source : String
  target : String
  event : String
  payload : Json

namespace Transition

def toJson (t : Transition) : Json :=
  .obj [("from", .str t.source), ("to", .str t.target), ("event", .str t.event),
    ("payload", t.payload)]

end Transition

/-- An event that the state does not accept. -/
structure Refusal where
  state : String
  event : String
deriving DecidableEq

def Refusal.message (e : Refusal) : String :=
  s!"invalid transition: cannot apply '{e.event}' in state '{e.state}'"

/-- A machine in a state; `history` holds the states before it, oldest first. -/
structure Machine where
  config : Machine.Config
  state : String
  history : List String

namespace Machine

def resetEvent : String := "reset"

def transitionEvent : String := "transition"

def start (config : Config) : Machine := ⟨config, config.initial, []⟩

def accepts (m : Machine) (event : String) : Bool :=
  (m.config.target? m.state event).isSome

/-- Events accepted in the current state, in order. -/
def available (m : Machine) : List String :=
  m.config.eventsFrom m.state

/-- Applies an event. -/
def fire (m : Machine) (event : String) (payload : Json) :
    Except Refusal (Transition × Machine) :=
  match m.config.target? m.state event with
  | none => .error ⟨m.state, event⟩
  | some target =>
    .ok (⟨m.state, target, event, payload⟩,
      { m with state := target, history := m.history ++ [m.state] })

/-- Fires events without payload until one is refused: the transitions made, the machine
after them, and the refusal if there was one. -/
def fireAll (m : Machine) : List String → List Transition × Machine × Option Refusal
  | [] => ([], m, none)
  | event :: rest =>
    match m.fire event .null with
    | .error refusal => ([], m, some refusal)
    | .ok (t, next) =>
      let (made, last, refusal) := next.fireAll rest
      (t :: made, last, refusal)

/-- Goes back to the initial state and forgets the states before. -/
def reset (m : Machine) : Transition × Machine :=
  (⟨m.state, m.config.initial, resetEvent, .null⟩, start m.config)

def fireLog (m : Machine) (t : Transition) : LogEntry :=
  ⟨.debug, s!"{m.config.name}: {t.source} --{t.event}--> {t.target}"⟩

def resetLog (m : Machine) : LogEntry :=
  ⟨.debug, s!"{m.config.name}: reset from {m.state}"⟩

end Machine

end AgentMarkup
