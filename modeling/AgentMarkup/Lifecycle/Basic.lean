import AgentMarkup.Machine.Basic

/-!
Lifecycles: machines whose states and events are values of types. Each value has a
label, and the configuration that the labels make up is derived from the lifecycle, so
it mentions no state that the lifecycle does not have.
-/

set_option autoImplicit false
set_option relaxedAutoImplicit false

namespace AgentMarkup

/-- A finite type whose values are told apart by their labels. -/
class Labelled (α : Type) where
  all : List α
  label : α → String

namespace Labelled

variable {α : Type} [Labelled α]

def ofLabel? (text : String) : Option α :=
  (all (α := α)).find? fun value ↦ label value == text

def labels (α : Type) [Labelled α] : List String :=
  (all (α := α)).map label

end Labelled

open Labelled

structure Lifecycle (S E : Type) where
  kind : String
  initial : S
  next : S → E → Option S

namespace Lifecycle

variable {S E : Type} [Labelled S] [Labelled E]

/-- The labelled targets of a state. -/
def row (l : Lifecycle S E) (state : S) : Table String :=
  .ofList ((all (α := E)).filterMap fun event ↦
    (l.next state event).map fun target ↦ (label event, label target))

def definition (l : Lifecycle S E) : Machine.Definition :=
  ⟨label l.initial, labels S,
    .ofList ((all (α := S)).map fun state ↦ (label state, l.row state))⟩

def config (l : Lifecycle S E) : Machine.Config :=
  .ofClosed l.kind l.definition

end Lifecycle

/-- A machine that takes events and gives states of a lifecycle. -/
structure TypedMachine {S E : Type} (l : Lifecycle S E) where
  machine : Machine

namespace TypedMachine

variable {S E : Type} [Labelled S] [Labelled E] {l : Lifecycle S E}

def start (l : Lifecycle S E) : TypedMachine l := ⟨.start l.config⟩

def state (m : TypedMachine l) : S :=
  (ofLabel? m.machine.state).getD l.initial

def history (m : TypedMachine l) : List S :=
  m.machine.history.filterMap ofLabel?

def accepts (m : TypedMachine l) (event : E) : Bool :=
  (l.next m.state event).isSome

/-- Applies an event and gives the new state. -/
def fire (m : TypedMachine l) (event : E) (payload : Json) :
    Except Refusal (S × TypedMachine l) :=
  (m.machine.fire (label event) payload).map fun (_, machine) ↦
    (state (⟨machine⟩ : TypedMachine l), ⟨machine⟩)

def reset (m : TypedMachine l) : TypedMachine l := ⟨m.machine.reset.2⟩

end TypedMachine

end AgentMarkup
