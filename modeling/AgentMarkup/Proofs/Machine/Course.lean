import AgentMarkup.Lifecycle.Observed
import AgentMarkup.Proofs.Bus.Move
import Mathlib.Data.List.Induction

/-!
Courses of machines: what a client asks of a machine, call after call, with the answers. Calls
are made on a machine alone (`perform`), or on one that announces its changes on a bus
(`performOn`), where callbacks run inside a call and anything may happen to the buses between
two calls. The buses do not matter to the machine: a course on a bus has the answers and the
end of the same calls made on the machine alone (`Course.eq_exchanges`).

Machines that take the events of a lifecycle have courses of the same shape, so the notions
are said for machines of any kind `M`, with events in `E` and results in `T`.
-/

set_option autoImplicit false
set_option relaxedAutoImplicit false

namespace AgentMarkup

open Bus

/-- What a client asks of a machine. -/
inductive Call (E : Type) where
  | fire (event : E) (payload : Json)
  | reset

/-- What the machine answers. -/
inductive Answer (T : Type) where
  | accepted (result : T)
  | refused (refusal : Refusal)
  | done

def Answer.ofResult {T : Type} : Except Refusal T → Answer T
  | .ok result => .accepted result
  | .error refusal => .refused refusal

/-- A call, the machine that it was made on, and the answer. -/
structure Exchange (M E T : Type) where
  before : M
  call : Call E
  answer : Answer T

section

variable {M E T σ : Type}

/-- The machine after a list of calls. -/
def afterCalls (perform : M → Call E → Answer T × M) (m : M) (calls : List (Call E)) : M :=
  calls.foldl (fun m call ↦ (perform m call).2) m

def exchanges (perform : M → Call E → Answer T × M) (m : M) :
    List (Call E) → List (Exchange M E T)
  | [] => []
  | call :: rest => ⟨m, call, (perform m call).1⟩ :: exchanges perform (perform m call).2 rest

/-- Calls on a machine that announces its changes, from one world to another. Whatever else is
done with the buses is done by scripts before, between and after the calls, or in callbacks. -/
inductive Course (schedule : Schedule σ Transition)
    (performOn : Nat → M → Call E → World σ Transition →
      Option (Answer T × M × World σ Transition)) (m : M) (w : World σ Transition) :
    List (Exchange M E T) → M → World σ Transition → Prop
  | start : Course schedule performOn m w [] m w
  | call {n next : M} {v v' : World σ Transition} {log : List (Exchange M E T)}
    {depth : Nat} {call : Call E} {answer : Answer T}
    (h : Course schedule performOn m w log n v)
    (hcall : performOn depth n call v = some (answer, next, v')) :
    Course schedule performOn m w (log ++ [⟨n, call, answer⟩]) next v'
  | meanwhile {n : M} {v v' : World σ Transition} {log : List (Exchange M E T)}
    {script : Script σ Transition} (h : Course schedule performOn m w log n v)
    (hrun : script.EndsIn schedule v v') : Course schedule performOn m w log n v'
  | report {n : M} {v : World σ Transition} {log : List (Exchange M E T)}
    (h : Course schedule performOn m w log n v) (entry : LogEntry) :
    Course schedule performOn m w log n (v.report entry)

variable {perform : M → Call E → Answer T × M} {schedule : Schedule σ Transition}
  {performOn : Nat → M → Call E → World σ Transition → Option (Answer T × M × World σ Transition)}
  {m n : M} {w w' : World σ Transition} {log : List (Exchange M E T)}

theorem exchanges_append_singleton (m : M) (calls : List (Call E)) (call : Call E) :
    exchanges perform m (calls ++ [call]) = exchanges perform m calls ++
      [⟨afterCalls perform m calls, call, (perform (afterCalls perform m calls) call).1⟩] := by
  induction calls generalizing m with
  | nil => rfl
  | cons first rest ih =>
    rw [List.cons_append, exchanges, exchanges, ih]
    rfl

theorem afterCalls_append_singleton (m : M) (calls : List (Call E)) (call : Call E) :
    afterCalls perform m (calls ++ [call]) = (perform (afterCalls perform m calls) call).2 := by
  unfold afterCalls
  rw [List.foldl_append]
  rfl

/-- An induction on the calls made so far: what holds at the start and survives each call with
its exchange holds after all calls. -/
theorem exchanges_induction {P : List (Exchange M E T) → M → Prop} (hstart : P [] m)
    (hcall : ∀ log n call, P log n →
      P (log ++ [⟨n, call, (perform n call).1⟩]) (perform n call).2)
    (calls : List (Call E)) : P (exchanges perform m calls) (afterCalls perform m calls) := by
  induction calls using List.reverseRecOn with
  | nil => exact hstart
  | append_singleton calls call ih =>
    rw [exchanges_append_singleton, afterCalls_append_singleton]
    exact hcall _ _ call ih

/-- Calls on a bus have the answers of the same calls without one, and lead to the same
machine. -/
theorem Course.eq_exchanges (h : Course schedule performOn m w log n w')
    (hperform : ∀ {depth n call v answer next v'},
      performOn depth n call v = some (answer, next, v') → perform n call = (answer, next)) :
    log = exchanges perform m (log.map Exchange.call) ∧
      n = afterCalls perform m (log.map Exchange.call) := by
  induction h with
  | start => exact ⟨rfl, rfl⟩
  | call _ hcall ih =>
    obtain ⟨hlog, hmachine⟩ := ih
    rw [List.map_append, List.map_singleton, exchanges_append_singleton,
      afterCalls_append_singleton, ← hlog, ← hmachine, hperform hcall]
    exact ⟨rfl, rfl⟩
  | meanwhile _ _ ih => exact ih
  | report _ _ ih => exact ih

end

/-! ### Machines -/

namespace Machine

variable {σ : Type} {schedule : Schedule σ Transition} {depth : Nat} {bus : BusId}
  {m next : Machine} {call : Call String} {answer : Answer Transition}
  {w w' : World σ Transition}

def perform (m : Machine) : Call String → Answer Transition × Machine
  | .fire event payload =>
    match m.fire event payload with
    | .ok (t, next) => (.accepted t, next)
    | .error refusal => (.refused refusal, m)
  | .reset => (.done, m.reset.2)

def performOn (schedule : Schedule σ Transition) (bus : BusId) (depth : Nat) (m : Machine)
    (call : Call String) (w : World σ Transition) :
    Option (Answer Transition × Machine × World σ Transition) :=
  match call with
  | .fire event payload =>
    (m.fireOn schedule depth bus event payload w).map fun (result, next, w) ↦
      (.ofResult result, next, w)
  | .reset => (m.resetOn schedule depth bus w).map fun (next, w) ↦ (.done, next, w)

/-- An accepted event is the one that the table has a target for in the current state. -/
theorem perform_fire (m : Machine) (event : String) (payload : Json) :
    m.perform (.fire event payload) =
      match m.config.target? m.state event with
      | none => (.refused ⟨m.state, event⟩, m)
      | some target => (.accepted ⟨m.state, target, event, payload⟩,
          { m with state := target, history := m.history ++ [m.state] }) := by
  cases htarget : m.config.target? m.state event <;> simp [perform, fire, htarget]

@[simp] theorem config_perform (m : Machine) (call : Call String) :
    (m.perform call).2.config = m.config := by
  cases call with
  | fire event payload =>
    rw [perform_fire]
    cases m.config.target? m.state event <;> rfl
  | reset => rfl

/-- Firing on a bus gives what firing alone gives, and announces the transition; a refused event
leaves the buses as they are. -/
theorem fire_of_fireOn {event : String} {payload : Json} {result : Except Refusal Transition}
    (h : m.fireOn schedule depth bus event payload w = some (result, next, w')) :
    (∃ t failure, result = .ok t ∧ m.fire event payload = .ok (t, next) ∧
      (announceTransition bus t).run schedule depth (w.report (m.fireLog t)) =
        some (w', failure)) ∨
      ∃ refusal, result = .error refusal ∧ m.fire event payload = .error refusal ∧
        next = m ∧ w' = w := by
  unfold fireOn at h
  cases hfire : m.fire event payload with
  | error refusal =>
    rw [hfire] at h
    simp only [Option.some.injEq, Prod.mk.injEq] at h
    obtain ⟨rfl, rfl, rfl⟩ := h
    exact Or.inr ⟨refusal, rfl, rfl, rfl, rfl⟩
  | ok made =>
    rw [hfire] at h
    obtain ⟨⟨v, failure⟩, hrun, heq⟩ := Option.map_eq_some_iff.mp h
    simp only [Prod.mk.injEq] at heq
    obtain ⟨rfl, rfl, rfl⟩ := heq
    exact Or.inl ⟨made.1, failure, rfl, rfl, hrun⟩

theorem reset_of_resetOn (h : m.resetOn schedule depth bus w = some (next, w')) :
    next = m.reset.2 ∧ ∃ failure,
      (announceReset bus m.reset.1).run schedule depth (w.report m.resetLog) =
        some (w', failure) := by
  obtain ⟨⟨v, failure⟩, hrun, heq⟩ := Option.map_eq_some_iff.mp h
  simp only [Prod.mk.injEq] at heq
  obtain ⟨rfl, rfl⟩ := heq
  exact ⟨rfl, failure, hrun⟩

/-- What a call on a bus does to the machine, it does without one. -/
theorem perform_of_performOn
    (h : m.performOn schedule bus depth call w = some (answer, next, w')) :
    m.perform call = (answer, next) := by
  cases call with
  | fire event payload =>
    obtain ⟨⟨result, fired, v⟩, hfired, heq⟩ := Option.map_eq_some_iff.mp h
    simp only [Prod.mk.injEq] at heq
    obtain ⟨rfl, rfl, rfl⟩ := heq
    rw [perform]
    rcases fire_of_fireOn hfired with ⟨t, -, rfl, hfire, -⟩ | ⟨refusal, rfl, hfire, rfl, -⟩
    · rw [hfire]
      rfl
    · rw [hfire]
      rfl
  | reset =>
    obtain ⟨⟨fired, v⟩, hfired, heq⟩ := Option.map_eq_some_iff.mp h
    simp only [Prod.mk.injEq] at heq
    obtain ⟨rfl, rfl, -⟩ := heq
    rw [perform, (reset_of_resetOn hfired).1]

end Machine

end AgentMarkup
