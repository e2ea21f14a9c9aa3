import AgentMarkup.Bus.Run
import AgentMarkup.Machine.Basic

/-!
Machines that announce their changes on a bus. A transition is published twice, under a
fixed name and under the name of its target; a reset is published once.
-/

set_option autoImplicit false
set_option relaxedAutoImplicit false

namespace AgentMarkup.Machine

open Bus

variable {σ : Type}

/-- What a transition publishes. -/
def announceTransition (bus : BusId) (t : Transition) : Script σ Transition :=
  .publish bus transitionEvent t fun _ ↦ .publish bus t.target t fun _ ↦ .done

/-- What a reset publishes. -/
def announceReset (bus : BusId) (t : Transition) : Script σ Transition :=
  .publish bus resetEvent t fun _ ↦ .done

/-- Applies an event and announces it; a refused event is not announced. There is no
answer if the announcement has no end within the depth. -/
def fireOn (schedule : Schedule σ Transition) (depth : Nat) (bus : BusId) (m : Machine)
    (event : String) (payload : Json) (w : World σ Transition) :
    Option (Except Refusal Transition × Machine × World σ Transition) :=
  match m.fire event payload with
  | .error refusal => some (.error refusal, m, w)
  | .ok (t, next) =>
    ((announceTransition bus t).run schedule depth (w.report (m.fireLog t))).map
      fun ending ↦ (.ok t, next, ending.1)

/-- Resets a machine and announces it. -/
def resetOn (schedule : Schedule σ Transition) (depth : Nat) (bus : BusId) (m : Machine)
    (w : World σ Transition) : Option (Machine × World σ Transition) :=
  ((announceReset bus m.reset.1).run schedule depth (w.report m.resetLog)).map
    fun ending ↦ (m.reset.2, ending.1)

end AgentMarkup.Machine
