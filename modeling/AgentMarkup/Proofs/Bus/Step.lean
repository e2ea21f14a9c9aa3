import AgentMarkup.Bus.Run
import Mathlib.Data.List.Basic
import Mathlib.Logic.Relation
import Mathlib.Tactic.SplitIfs

/-!
The steps that an execution consists of, to the letter. `Operation` lists what a script does to
a world without publishing, `Step` adds the beginning of a publication, the invocation of a
listener and the conclusion. Runs are sequences of steps (`steps_of_run`), with callbacks that
publish in their turn to any depth, so whatever a step keeps, a run keeps.

A statement on runs as wholes is proved from its parts by `ComposesExactly.of_run`: it has to
hold of operations, carry over from one part to the next, and hold of a publication if it holds
of the callbacks.

Every moment of a history is a step between two worlds that the execution passed
(`exists_worlds_of_moment`).
-/

set_option autoImplicit false
set_option relaxedAutoImplicit false

namespace AgentMarkup.Bus

variable {σ α : Type}

/-! ### Operations -/

/-- What an operation other than a publication does to a world. -/
inductive Operation (w : World σ α) : World σ α → Prop
  | aside (memory : σ) (log : List LogEntry) : Operation w { w with memory, log }
  | create : Operation w w.create.2
  | clone (bus : BusId) : Operation w (w.clone bus)
  | drop (bus : BusId) : Operation w (w.drop bus)
  | subscribe (bus : BusId) (event : String) (once : Bool) (callback : α → Script σ α) :
    Operation w (w.subscribe bus event once callback).2
  | unsubscribe (bus : BusId) (s : Subscription) : Operation w (w.unsubscribe bus s).2
  | cancel (s : Subscription) : Operation w (w.cancel s).2
  | clear (bus : BusId) (event : Option String) : Operation w (w.clear bus event)
  | count (bus : BusId) (event : String) : Operation w (w.count bus event).2
  | names (bus : BusId) : Operation w (w.names bus).2

/-! ### From steps to runs -/

/-- Whether a script, with publications nested to some depth, leaves this world. -/
def Script.EndsIn (schedule : Schedule σ α) (script : Script σ α) (w w' : World σ α) : Prop :=
  ∃ depth failure, script.run schedule depth w = some (w', failure)

/-- Relations between the world before a stretch of an execution and the one after it that
hold of the whole if they hold of the parts. -/
structure ComposesExactly (schedule : Schedule σ α) (R : World σ α → World σ α → Prop) :
    Prop where
  refl : ∀ w, R w w
  trans : ∀ {u v w}, R u v → R v w → R u w
  operation : ∀ {w w'}, Operation w w' → R w w'
  publish : ∀ {call : Script σ α → World σ α → Ending σ α},
    (∀ {script w w' failure}, call script w = some (w', failure) →
      script.EndsIn schedule w w' ∧ R w w') →
    ∀ {bus event payload w invoked w'},
      Bus.publish schedule call bus event payload w = some (invoked, w') → R w w'

/-- The worlds that executions lead to: scripts run one after the other from a world without
buses, whether they fail or not, with other entries in the log between them. -/
inductive World.Arises (schedule : Schedule σ α) : World σ α → Prop
  | empty (memory : σ) : Arises schedule (World.empty memory)
  | report {w : World σ α} (entry : LogEntry) (h : Arises schedule w) :
    Arises schedule (w.report entry)
  | run {w w' : World σ α} {depth : Nat} {script : Script σ α} {failure : Option Failure}
    (h : Arises schedule w) (hrun : script.run schedule depth w = some (w', failure)) :
    Arises schedule w'

namespace ComposesExactly

variable {schedule : Schedule σ α} {R : World σ α → World σ α → Prop}

theorem of_eval (h : ComposesExactly schedule R) {call : Script σ α → World σ α → Ending σ α}
    (hcall : ∀ {script w w' failure}, call script w = some (w', failure) →
      script.EndsIn schedule w w' ∧ R w w')
    {script : Script σ α} {w w' : World σ α} {failure : Option Failure}
    (heval : script.eval schedule call w = some (w', failure)) : R w w' := by
  induction script generalizing w with
  | done | fail =>
    simp only [Script.eval, Option.some.injEq, Prod.mk.injEq] at heval
    exact heval.1 ▸ h.refl w
  | «recall» next ih => exact ih _ heval
  | remember memory next ih => exact h.trans (h.operation (.aside memory w.log)) (ih heval)
  | create next ih => exact h.trans (h.operation .create) (ih _ heval)
  | clone bus next ih => exact h.trans (h.operation (.clone bus)) (ih heval)
  | drop bus next ih => exact h.trans (h.operation (.drop bus)) (ih heval)
  | subscribe bus event once callback next _ ih =>
    exact h.trans (h.operation (.subscribe bus event once callback)) (ih _ heval)
  | unsubscribe bus s next ih => exact h.trans (h.operation (.unsubscribe bus s)) (ih _ heval)
  | cancel s next ih => exact h.trans (h.operation (.cancel s)) (ih _ heval)
  | publish bus event payload next ih =>
    rw [Script.eval] at heval
    cases hpublish : Bus.publish schedule call bus event payload w with
    | none => simp [hpublish] at heval
    | some result =>
      rw [hpublish] at heval
      exact h.trans (h.publish hcall hpublish) (ih _ heval)
  | clear bus event next ih => exact h.trans (h.operation (.clear bus event)) (ih heval)
  | count bus event next ih => exact h.trans (h.operation (.count bus event)) (ih _ heval)
  | names bus next ih => exact h.trans (h.operation (.names bus)) (ih _ heval)

/-- Callbacks are runs of less depth, so the induction is on the depth. -/
theorem of_run (h : ComposesExactly schedule R) {depth : Nat} {script : Script σ α}
    {w w' : World σ α} {failure : Option Failure}
    (hrun : script.run schedule depth w = some (w', failure)) : R w w' := by
  induction depth generalizing script w w' failure with
  | zero => exact h.of_eval (fun hnone ↦ absurd hnone (by simp)) hrun
  | succ depth ih => exact h.of_eval (fun hend ↦ ⟨⟨depth, _, hend⟩, ih hend⟩) hrun

theorem of_arises (h : ComposesExactly schedule R) {w : World σ α} (hw : w.Arises schedule) :
    ∃ memory, R (World.empty memory) w := by
  induction hw with
  | empty memory => exact ⟨memory, h.refl _⟩
  | report entry _ ih =>
    obtain ⟨memory, hbefore⟩ := ih
    exact ⟨memory, h.trans hbefore (h.operation (.aside _ _))⟩
  | run _ hrun ih =>
    obtain ⟨memory, hbefore⟩ := ih
    exact ⟨memory, h.trans hbefore (h.of_run hrun)⟩

end ComposesExactly

/-! ### Publications -/

/-- Once the first callback has come to its end the others are invoked, whether it failed or
not. -/
theorem deliver_cons_of_some {call : Script σ α → World σ α → Ending σ α} {event : String}
    {payload : α} {number : Nat} {l : Listener σ α} {rest : List (Listener σ α)}
    {w called : World σ α} {failure : Option Failure}
    (h : call (l.callback payload) (w.record (.invoke number l.id payload)) =
      some (called, failure)) :
    deliver call event payload number (l :: rest) w = deliver call event payload number rest
      (failure.elim called fun failure ↦ called.report (failureLog event failure)) := by
  rw [deliver, h]
  cases failure <;> rfl

/-- The first delivery runs its callback, and the others start in the world that this leaves,
with or without a failure in the log. -/
theorem exists_of_deliver_cons {call : Script σ α → World σ α → Ending σ α} {event : String}
    {payload : α} {number : Nat} {l : Listener σ α} {rest : List (Listener σ α)}
    {w w' : World σ α} (h : deliver call event payload number (l :: rest) w = some w') :
    ∃ called failure log,
      call (l.callback payload) (w.record (.invoke number l.id payload)) =
        some (called, failure) ∧
      deliver call event payload number rest { called with log } = some w' := by
  rw [deliver] at h
  split at h
  · exact absurd h (by simp)
  · rename_i called hcalled
    exact ⟨called, none, called.log, hcalled, h⟩
  · rename_i called failure hcalled
    exact ⟨called, some failure, _, hcalled, h⟩

/-- Deliveries have no end only if a callback has none. -/
theorem exists_of_deliver_eq_none {call : Script σ α → World σ α → Ending σ α} {event : String}
    {payload : α} {number : Nat} {listeners : List (Listener σ α)} {w : World σ α}
    (h : deliver call event payload number listeners w = none) :
    ∃ l ∈ listeners, ∃ v : World σ α,
      call (l.callback payload) (v.record (.invoke number l.id payload)) = none := by
  induction listeners generalizing w with
  | nil => exact absurd h (by simp [deliver])
  | cons l rest ih =>
    have hlater {v : World σ α} (hrest : deliver call event payload number rest v = none) :
        ∃ other ∈ l :: rest, ∃ v : World σ α,
          call (other.callback payload) (v.record (.invoke number other.id payload)) = none := by
      obtain ⟨other, hother, hcall⟩ := ih hrest
      exact ⟨other, List.mem_cons_of_mem l hother, hcall⟩
    rw [deliver] at h
    split at h
    · rename_i hcall
      exact ⟨l, List.mem_cons_self, w, hcall⟩
    · exact hlater h
    · exact hlater h

/-- A publication delivers to the listeners that it found, between its beginning and its
conclusion, and its answer is their number. -/
theorem exists_of_publish {schedule : Schedule σ α}
    {call : Script σ α → World σ α → Ending σ α} {bus : BusId} {event : String} {payload : α}
    {w w' : World σ α} {invoked : Nat}
    (h : publish schedule call bus event payload w = some (invoked, w')) :
    invoked = (w.store bus).count event ∧ ∃ delivered,
      deliver call event payload w.history.length
        (schedule.arrange w.history.length ((w.store bus).listenersOf event))
        (w.beginPublication bus event payload) = some delivered ∧
      w' = delivered.concludePublication bus w.history.length invoked := by
  obtain ⟨delivered, hdeliver, heq⟩ := Option.map_eq_some_iff.mp h
  simp only [Prod.mk.injEq] at heq
  obtain ⟨rfl, rfl⟩ := heq
  exact ⟨rfl, delivered, hdeliver, rfl⟩

/-- A publication has no end only if the callback of a listener that it found has none. -/
theorem exists_of_publish_eq_none {schedule : Schedule σ α}
    {call : Script σ α → World σ α → Ending σ α} {bus : BusId} {event : String} {payload : α}
    {w : World σ α} (h : publish schedule call bus event payload w = none) :
    ∃ l ∈ (w.store bus).listenersOf event, ∃ v : World σ α,
      call (l.callback payload) (v.record (.invoke w.history.length l.id payload)) = none := by
  obtain ⟨l, hl, hcall⟩ := exists_of_deliver_eq_none (Option.map_eq_none_iff.mp h)
  exact ⟨l, (schedule.perm _ _).mem_iff.mp hl, hcall⟩

theorem length_history_beginPublication (w : World σ α) (bus : BusId) (event : String)
    (payload : α) :
    (w.beginPublication bus event payload).history.length = w.history.length + 1 :=
  List.length_append

/-! ### Single steps -/

theorem getElem?_of_isPrefix {β : Type} {xs ys : List β} (h : xs <+: ys) {n : Nat} {x : β}
    (hx : xs[n]? = some x) : ys[n]? = some x := by
  obtain ⟨rest, rfl⟩ := h
  rw [List.getElem?_append_left (List.getElem?_eq_some_iff.mp hx).1, hx]

/-- Whether the publication of this number publishes this payload under an event of a bus. -/
def Publishes (history : List (Moment σ α)) (number : Nat) (bus : BusId) (event : String)
    (payload : α) : Prop :=
  ∃ stores, history[number]? = some ⟨stores, .publish bus event payload⟩

theorem Publishes.mono {first second : List (Moment σ α)} (h : first <+: second) {number : Nat}
    {bus : BusId} {event : String} {payload : α}
    (hfirst : Publishes first number bus event payload) :
    Publishes second number bus event payload := by
  obtain ⟨stores, hstores⟩ := hfirst
  exact ⟨stores, getElem?_of_isPrefix h hstores⟩

theorem Publishes.lt_length {history : List (Moment σ α)} {number : Nat} {bus : BusId}
    {event : String} {payload : α} (h : Publishes history number bus event payload) :
    number < history.length := by
  obtain ⟨stores, hstores⟩ := h
  exact (List.getElem?_eq_some_iff.mp hstores).1

theorem publishes_beginPublication (w : World σ α) (bus : BusId) (event : String)
    (payload : α) :
    Publishes (w.beginPublication bus event payload).history w.history.length bus event payload :=
  ⟨w.stores, List.getElem?_concat_length⟩

/-- What a step of an execution does to a world. -/
inductive Step (w : World σ α) : World σ α → Prop
  | operation {next : World σ α} (h : Operation w next) : Step w next
  | begin (bus : BusId) (event : String) (payload : α) :
    Step w (w.beginPublication bus event payload)
  | invoke {publication : Nat} {bus : BusId} {event : String} {payload : α} (listener : Nat)
    (h : Publishes w.history publication bus event payload) :
    Step w (w.record (.invoke publication listener payload))
  | conclude {publication : Nat} {bus : BusId} {event : String} {payload : α} (invoked : Nat)
    (h : Publishes w.history publication bus event payload) :
    Step w (w.concludePublication bus publication invoked)

/-- Any number of steps. -/
abbrev Steps : World σ α → World σ α → Prop := Relation.ReflTransGen Step

/-! ### Histories -/

/-- Whether nothing was done with the buses between two worlds, or one thing was and the
history tells of it. -/
def Records (w next : World σ α) : Prop :=
  (next.history = w.history ∧ next.stores = w.stores) ∨
    ∃ act, next.history = w.history ++ [⟨w.stores, act⟩]

theorem Operation.records {w next : World σ α} (h : Operation w next) : Records w next := by
  cases h with
  | aside => exact Or.inl ⟨rfl, rfl⟩
  | cancel s =>
    refine Or.inr ⟨.cancel s (w.cancel s).1, ?_⟩
    unfold World.cancel
    split_ifs <;> rfl
  | create | clone | drop | subscribe | unsubscribe | clear | count | names =>
    exact Or.inr ⟨_, rfl⟩

theorem Step.records {w next : World σ α} (h : Step w next) : Records w next := by
  cases h with
  | operation h => exact h.records
  | begin | invoke | conclude => exact Or.inr ⟨_, rfl⟩

section

variable {R : World σ α → World σ α → Prop} {w w' : World σ α}

theorem prefix_history_of_records (hR : ∀ {w next}, R w next → Records w next)
    (h : Relation.ReflTransGen R w w') : w.history <+: w'.history := by
  induction h with
  | refl => exact List.prefix_refl _
  | tail _ hstep ih =>
    rcases hR hstep with ⟨heq, -⟩ | ⟨act, heq⟩
    · exact heq ▸ ih
    · exact ih.trans (heq ▸ List.prefix_append _ _)

/-- A moment of a history is a step from a world that the execution passed: from the moments
before it and its own buses to the history with this moment. -/
theorem exists_worlds_of_moment (hR : ∀ {w next}, R w next → Records w next)
    (h : Relation.ReflTransGen R w w') {before after : List (Moment σ α)} {m : Moment σ α}
    (hhistory : w'.history = w.history ++ (before ++ m :: after)) :
    ∃ u v, Relation.ReflTransGen R w u ∧ R u v ∧ Relation.ReflTransGen R v w' ∧
      u.history = w.history ++ before ∧ u.stores = m.stores ∧
      v.history = u.history ++ [m] := by
  induction h generalizing after with
  | refl => simp at hhistory
  | tail hsteps hstep ih =>
    rename_i x y
    rcases hR hstep with ⟨heq, -⟩ | ⟨act, heq⟩
    · obtain ⟨u, v, hu, huv, hv, hrest⟩ := ih (heq ▸ hhistory)
      exact ⟨u, v, hu, huv, hv.tail hstep, hrest⟩
    · rw [heq] at hhistory
      rcases List.eq_nil_or_concat after with rfl | ⟨others, last, rfl⟩
      · rw [← List.append_assoc] at hhistory
        obtain ⟨hx, hm⟩ := List.append_inj' hhistory rfl
        obtain rfl := (List.cons.inj hm).1
        exact ⟨x, y, hsteps, hstep, .refl, hx, rfl, heq⟩
      · have hx : x.history = w.history ++ (before ++ m :: others) := by
          rw [List.concat_eq_append, ← List.cons_append, ← List.append_assoc before,
            ← List.append_assoc w.history] at hhistory
          exact (List.append_inj' hhistory rfl).1
        obtain ⟨u, v, hu, huv, hv, hrest⟩ := ih hx
        exact ⟨u, v, hu, huv, hv.tail hstep, hrest⟩

end

/-! ### Runs are sequences of steps -/

theorem steps_of_deliver {call : Script σ α → World σ α → Ending σ α}
    (hcall : ∀ {script w w' failure}, call script w = some (w', failure) → Steps w w')
    {bus : BusId} {event : String} {payload : α} {number : Nat}
    {listeners : List (Listener σ α)} {w w' : World σ α}
    (hnumber : Publishes w.history number bus event payload)
    (h : deliver call event payload number listeners w = some w') : Steps w w' := by
  induction listeners generalizing w with
  | nil => exact Option.some.inj h ▸ .refl
  | cons l rest ih =>
    obtain ⟨called, failure, log, hcalled, hrest⟩ := exists_of_deliver_cons h
    have hinvoke : Steps w (w.record (.invoke number l.id payload)) :=
      .single (.invoke l.id hnumber)
    have hsteps : Steps w { called with log } :=
      (hinvoke.trans (hcall hcalled)).tail (.operation (.aside called.memory log))
    exact hsteps.trans (ih (hnumber.mono (prefix_history_of_records Step.records hsteps)) hrest)

theorem composesExactly_steps (schedule : Schedule σ α) : ComposesExactly schedule Steps where
  refl _ := .refl
  trans := Relation.ReflTransGen.trans
  operation h := .single (.operation h)
  publish hcall bus event payload w invoked w' h := by
    obtain ⟨-, delivered, hdeliver, rfl⟩ := exists_of_publish h
    have hbegin : Steps w (w.beginPublication bus event payload) :=
      .single (.begin bus event payload)
    have hnumber := publishes_beginPublication w bus event payload
    have hsteps := steps_of_deliver (fun hend ↦ (hcall hend).2) hnumber hdeliver
    have hlate := hnumber.mono (prefix_history_of_records Step.records hsteps)
    exact (hbegin.trans hsteps).tail (.conclude invoked hlate)

theorem steps_of_run {schedule : Schedule σ α} {depth : Nat} {script : Script σ α}
    {w w' : World σ α} {failure : Option Failure}
    (h : script.run schedule depth w = some (w', failure)) : Steps w w' :=
  (composesExactly_steps schedule).of_run h

theorem World.Arises.exists_steps {schedule : Schedule σ α} {w : World σ α}
    (h : w.Arises schedule) : ∃ memory, Steps (World.empty memory) w :=
  (composesExactly_steps schedule).of_arises h

end AgentMarkup.Bus
