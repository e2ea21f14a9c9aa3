import AgentMarkup.Lifecycle.Basic
import AgentMarkup.Machine.Observed
import AgentMarkup.Text.Quoted

/-!
Typed machines that announce their changes on a bus, as the machines inside them do.
-/

set_option autoImplicit false
set_option relaxedAutoImplicit false

namespace AgentMarkup.TypedMachine

open Bus Labelled

variable {σ S E : Type} [Labelled S] [Labelled E] {l : Lifecycle S E}

def fireOn (schedule : Schedule σ Transition) (depth : Nat) (bus : BusId)
    (m : TypedMachine l) (event : E) (payload : Json) (w : World σ Transition) :
    Option (Except Refusal S × TypedMachine l × World σ Transition) :=
  (m.machine.fireOn schedule depth bus (label event) payload w).map
    fun (result, machine, w) ↦
      (result.map fun _ ↦ state (⟨machine⟩ : TypedMachine l), ⟨machine⟩, w)

def resetOn (schedule : Schedule σ Transition) (depth : Nat) (bus : BusId)
    (m : TypedMachine l) (w : World σ Transition) :
    Option (TypedMachine l × World σ Transition) :=
  (m.machine.resetOn schedule depth bus w).map fun (machine, w) ↦ (⟨machine⟩, w)

def inspect (m : TypedMachine l) : String :=
  Text.quoteRecord "TypedMachine"
    [("kind", Text.quote l.kind), ("state", Text.quote m.machine.state)]

end AgentMarkup.TypedMachine
