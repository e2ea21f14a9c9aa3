import AgentMarkup.Proofs.Machine.FirstFault
import AgentMarkup.Proofs.Machine.Interleaving

/-!
Events that are refused. Whether an event is accepted can be asked of a machine, read off the
list of its events, or tried, and the three agree (`AgreesOn`). On a bus a refused event leaves
everything as it is: nothing is published, so nobody is invoked and no listener that wants a
single delivery is let go (`fireOn_of_not_accepts`). Along a course refused events might as well
never have been fired: struck out of it, they leave a course between the same worlds
(`Course.without_refusals`).
-/

set_option autoImplicit false
set_option relaxedAutoImplicit false

namespace AgentMarkup

open Bus

/-- Whether a call was answered with a refusal. -/
def Exchange.isRefused {M E T : Type} (x : Exchange M E T) : Bool :=
  match x.answer with
  | .refused _ => true
  | .accepted _ | .done => false

namespace Machine

variable {σ : Type} {schedule : Schedule σ Transition} {depth : Nat} {bus : BusId}
  {m n : Machine} {event : String} {log : List (Exchange Machine String Transition)}
  {w w' : World σ Transition}

/-! ### Asking and trying -/

theorem accepts_eq_true_iff :
    m.accepts event = true ↔ ∃ target, m.config.target? m.state event = some target :=
  Option.isSome_iff_exists

theorem mem_available_iff : event ∈ m.available ↔ m.accepts event = true :=
  Config.mem_eventsFrom_iff.trans accepts_eq_true_iff.symm

theorem fire_isOk_iff (payload : Json) :
    (∃ t next, m.fire event payload = .ok (t, next)) ↔ m.accepts event = true := by
  rw [accepts_eq_true_iff, fire]
  cases m.config.target? m.state event with
  | none => simp
  | some target => simp

theorem fire_of_not_accepts (h : m.accepts event = false) (payload : Json) :
    m.fire event payload = .error ⟨m.state, event⟩ := by
  have hnone : m.config.target? m.state event = none :=
    Option.isNone_iff_eq_none.mp (Option.isSome_eq_false_iff.mp h)
  rw [fire, hnone]

/-- Nothing happens to the buses, within every depth. -/
theorem fireOn_of_not_accepts (h : m.accepts event = false) (schedule : Schedule σ Transition)
    (depth : Nat) (bus : BusId) (payload : Json) (w : World σ Transition) :
    m.fireOn schedule depth bus event payload w = some (.error ⟨m.state, event⟩, m, w) := by
  rw [fireOn, fire_of_not_accepts h]

theorem fireOn_isOk_iff {payload : Json} {result : Except Refusal Transition}
    (h : m.fireOn schedule depth bus event payload w = some (result, n, w')) :
    (∃ t, result = .ok t) ↔ m.accepts event = true := by
  rw [← fire_isOk_iff payload]
  rcases fire_of_fireOn h with ⟨t, -, rfl, hfire, -⟩ | ⟨refusal, rfl, hfire, -⟩
  · simp [hfire]
  · simp [hfire]

/-- An accepted event has an answer, unless an announcement of it comes to a listener whose
callback has no end. -/
theorem exists_fireOn_or_stalls (schedule : Schedule σ Transition) (bus : BusId)
    (payload : Json) (w : World σ Transition) :
    (∃ depth result next v, m.fireOn schedule depth bus event payload w = some (result, next, v)) ∨
      StallsAnnouncing schedule bus (announcements m.config
        ⟨m, .fire event payload, (m.perform (.fire event payload)).1⟩)
        (m.logged w (.fire event payload)) := by
  rcases exists_performOn_or_stalls schedule bus m (.fire event payload) w with
    ⟨depth, v, hanswer⟩ | hstalls
  · obtain ⟨⟨result, next, v⟩, hfire, -⟩ := Option.map_eq_some_iff.mp hanswer
    exact Or.inl ⟨depth, result, next, v, hfire⟩
  · exact Or.inr hstalls

/-- What a machine answers about an event, asked in any way. -/
structure AgreesOn (m : Machine) (event : String) : Prop where
  listed : event ∈ m.available ↔ m.accepts event = true
  fires : ∀ payload, (∃ t next, m.fire event payload = .ok (t, next)) ↔ m.accepts event = true
  /-- The same holds on a bus, whoever listens there. -/
  firesOn : ∀ {σ : Type} {schedule : Schedule σ Transition} {depth : Nat} {bus : BusId}
    {payload : Json} {w w' : World σ Transition} {result : Except Refusal Transition}
    {next : Machine}, m.fireOn schedule depth bus event payload w = some (result, next, w') →
      ((∃ t, result = .ok t) ↔ m.accepts event = true)
  /-- There is an answer, unless an announcement comes to a listener whose callback has no end. -/
  answers : ∀ {σ : Type} (schedule : Schedule σ Transition) (bus : BusId) (payload : Json)
    (w : World σ Transition),
    (∃ depth result next w', m.fireOn schedule depth bus event payload w =
      some (result, next, w')) ∨
      StallsAnnouncing schedule bus (announcements m.config
        ⟨m, .fire event payload, (m.perform (.fire event payload)).1⟩)
        (m.logged w (.fire event payload))
  /-- A refusal names the state and the event, and leaves the machine, the buses with their
  listeners and the history of all that was done with them as they are. -/
  refused : m.accepts event = false → ∀ {σ : Type} (schedule : Schedule σ Transition)
    (depth : Nat) (bus : BusId) (payload : Json) (w : World σ Transition),
    m.fireOn schedule depth bus event payload w = some (.error ⟨m.state, event⟩, m, w)

theorem agreesOn (m : Machine) (event : String) : m.AgreesOn event where
  listed := mem_available_iff
  fires := fire_isOk_iff
  firesOn := fireOn_isOk_iff
  answers := exists_fireOn_or_stalls
  refused h := fireOn_of_not_accepts h

/-! ### Along a course -/

/-- A refused call leaves the machine and the buses as they are. -/
theorem eq_of_performOn_refused {call : Call String} {refusal : Refusal}
    (h : m.performOn schedule bus depth call w = some (.refused refusal, n, w')) :
    (∃ event payload, call = .fire event payload ∧ m.accepts event = false ∧
      refusal = ⟨m.state, event⟩) ∧ n = m ∧ w' = w := by
  cases call with
  | reset =>
    obtain ⟨_, -, heq⟩ := Option.map_eq_some_iff.mp h
    simp at heq
  | fire event payload =>
    obtain ⟨⟨result, fired, v⟩, hfired, heq⟩ := Option.map_eq_some_iff.mp h
    simp only [Prod.mk.injEq] at heq
    obtain ⟨hresult, rfl, rfl⟩ := heq
    cases haccepts : m.accepts event with
    | true =>
      obtain ⟨t, rfl⟩ := (fireOn_isOk_iff hfired).mpr haccepts
      simp [Answer.ofResult] at hresult
    | false =>
      rw [fireOn_of_not_accepts haccepts, Option.some.injEq, Prod.mk.injEq, Prod.mk.injEq] at hfired
      obtain ⟨rfl, rfl, rfl⟩ := hfired
      exact ⟨⟨event, payload, rfl, haccepts, (Answer.refused.inj hresult).symm⟩, rfl, rfl⟩

/-- What a course refused was an event that the state did not accept. -/
theorem fire_of_refused (h : Course schedule (performOn schedule bus) m w log n w')
    {x : Exchange Machine String Transition} (hx : x ∈ log) {refusal : Refusal}
    (hrefused : x.answer = .refused refusal) : ∃ event payload, x.call = .fire event payload ∧
      x.before.accepts event = false ∧ refusal = ⟨x.before.state, event⟩ := by
  induction h with
  | start => exact absurd hx List.not_mem_nil
  | meanwhile _ _ ih => exact ih hx
  | report _ _ ih => exact ih hx
  | call _ hcall ih =>
    rcases List.mem_append.mp hx with hold | hnew
    · exact ih hold
    · obtain rfl := List.mem_singleton.mp hnew
      simp only at hrefused
      exact (eq_of_performOn_refused (hrefused ▸ hcall)).1

/-- The calls of a course that are not refused are a course by themselves. -/
theorem Course.without_refusals (h : Course schedule (performOn schedule bus) m w log n w') :
    Course schedule (performOn schedule bus) m w (log.filter (!·.isRefused)) n w' := by
  induction h with
  | start => exact .start
  | meanwhile _ hrun ih => exact ih.meanwhile hrun
  | report _ entry ih => exact ih.report entry
  | @call n next v v' log depth call answer _ hcall ih =>
    rw [List.filter_append]
    cases answer with
    | refused refusal =>
      obtain ⟨-, rfl, rfl⟩ := eq_of_performOn_refused hcall
      simpa [Exchange.isRefused] using ih
    | accepted t => exact ih.call hcall
    | done => exact ih.call hcall

/-- After any course of a machine its answers about each event agree, and its events are listed in
order without repetition. What was refused on the way was an event that the state did not accept,
and changed nothing: without these calls the course comes to the same machine in the same world. -/
theorem refusals_change_nothing {c : Config}
    (h : Course schedule (performOn schedule bus) (start c) w log m w') :
    m.available.Pairwise (· < ·) ∧ (∀ event, m.AgreesOn event) ∧
      (∀ x ∈ log, ∀ refusal, x.answer = .refused refusal → ∃ event payload,
        x.call = .fire event payload ∧ x.before.accepts event = false ∧
          refusal = ⟨x.before.state, event⟩) ∧
      Course schedule (performOn schedule bus) (start c) w (log.filter (!·.isRefused)) m w' := by
  have hsorted : m.available.Pairwise (· < ·) := Config.pairwise_eventsFrom m.config m.state
  exact ⟨hsorted, agreesOn m, fun _ hx _ hrefused ↦ fire_of_refused h hx hrefused,
    Course.without_refusals h⟩

/-- Someone waits for the door to open, and wants to be told once. -/
def awaited : World Unit Transition :=
  ((World.empty ()).create.2.subscribe 0 "open" true fun _ ↦ .done).2

/-- The door is pushed, which it refuses while it is shut, pulled, and pulled once too often. Who
waits is still there after the push, and is told of the pull. -/
theorem refusals_change_nothing_door :
    let c := Config.ofClosed "door" door
    ∃ (w : World Unit Transition) (log : List (Exchange Machine String Transition)) (m : Machine),
      Course .inOrder (performOn .inOrder 0) (start c) awaited
          [⟨start c, .fire "push" .null, .refused ⟨"shut", "push"⟩⟩] (start c) awaited ∧
        Course .inOrder (performOn .inOrder 0) (start c) awaited log m w ∧
        log.map Exchange.answer = [.refused ⟨"shut", "push"⟩,
          .accepted ⟨"shut", "open", "pull", .null⟩, .refused ⟨"open", "pull"⟩] ∧
        (awaited.count 0 "open").1 = 1 ∧ (w.count 0 "open").1 = 0 ∧
        m.available.Pairwise (· < ·) ∧ (∀ event, m.AgreesOn event) ∧
        Course .inOrder (performOn .inOrder 0) (start c) awaited
          (log.filter (!·.isRefused)) m w := by
  intro c
  have hpushed : Course .inOrder (performOn .inOrder 0) (start c) awaited _ _ _ :=
    .call .start (rfl : performOn .inOrder 0 1 _ (.fire "push" .null) _ = some (_, _, _))
  have hpulled := hpushed.call
    (rfl : performOn .inOrder 0 1 _ (.fire "pull" .null) _ = some (_, _, _))
  have hcourse := hpulled.call
    (rfl : performOn .inOrder 0 1 _ (.fire "pull" .null) _ = some (_, _, _))
  obtain ⟨hsorted, hagrees, -, hstruck⟩ := refusals_change_nothing hcourse
  exact ⟨_, _, _, hpushed, hcourse, rfl, rfl, rfl, hsorted, hagrees, hstruck⟩

end Machine

end AgentMarkup
