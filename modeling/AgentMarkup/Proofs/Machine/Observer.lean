import AgentMarkup.Proofs.Bus.Notice
import AgentMarkup.Proofs.Machine.Path

/-!
What observers see of a machine that nobody else shares the bus with. A call announces its
transition under the fixed name and under the name of the target, or its reset under the name of
resets (`announcements`), and a course announces what its calls do, one after the other
(`tells_of_course`). The names of states stand beside the two fixed names, so an observer sees
each change once exactly if no transition leads to a state of such a name; `ToldOf` says what it
sees in any case.
-/

set_option autoImplicit false
set_option relaxedAutoImplicit false

namespace AgentMarkup.Machine

open Bus

/-- The transition that a call was answered with. -/
def transitionIn? (x : Exchange Machine String Transition) : Option Transition :=
  match x.call, x.answer with
  | .fire _ _, .accepted t => some t
  | _, _ => none

/-- The change that a reset makes. -/
def resetIn? (c : Config) (x : Exchange Machine String Transition) : Option Transition :=
  match x.call with
  | .fire _ _ => none
  | .reset => some ⟨x.before.state, c.initial, resetEvent, .null⟩

/-- What is announced of a call, under which names and in which order. -/
def announcements (c : Config) (x : Exchange Machine String Transition) :
    List (String × Transition) :=
  match transitionIn? x with
  | some t => [(transitionEvent, t), (t.target, t)]
  | none => ((resetIn? c x).map (resetEvent, ·)).toList

variable {σ : Type} {schedule : Schedule σ Transition} {depth : Nat} {bus : BusId}
  {c : Config} {m n : Machine} {call : Call String} {answer : Answer Transition}
  {log : List (Exchange Machine String Transition)} {w w' : World σ Transition}

/-! ### Calls and courses tell what they announce -/

/-- The world in which a call announces its change. A call that makes one has left a line in the
log. -/
def logged (m : Machine) (w : World σ Transition) : Call String → World σ Transition
  | .fire event payload =>
    match m.fire event payload with
    | .ok (t, _) => w.report (m.fireLog t)
    | .error _ => w
  | .reset => w.report m.resetLog

theorem logged_eq (m : Machine) (w : World σ Transition) (call : Call String) :
    m.logged w call = w ∨ ∃ entry, m.logged w call = w.report entry := by
  cases call with
  | fire event payload =>
    rw [logged]
    cases m.fire event payload with
    | ok made => exact Or.inr ⟨_, rfl⟩
    | error refusal => exact Or.inl rfl
  | reset => exact Or.inr ⟨_, rfl⟩

/-- A call on a bus does to the machine what it does without one, and its announcements are
all that it does to the buses. -/
theorem performOn_eq (schedule : Schedule σ Transition) (bus : BusId) (depth : Nat) (m : Machine)
    (call : Call String) (w : World σ Transition) :
    m.performOn schedule bus depth call w =
      ((announcing bus (announcements m.config ⟨m, call, (m.perform call).1⟩)).run schedule depth
        (m.logged w call)).map fun ending ↦ ((m.perform call).1, (m.perform call).2, ending.1) := by
  cases call with
  | fire event payload =>
    rw [performOn, fireOn, perform, logged]
    cases m.fire event payload with
    | ok made => exact Option.map_map ..
    | error refusal => cases depth <;> rfl
  | reset => exact Option.map_map ..

theorem exists_run_of_performOn (hm : m.config = c)
    (h : m.performOn schedule bus depth call w = some (answer, n, w')) :
    ∃ failure, (announcing bus (announcements c ⟨m, call, answer⟩)).run schedule depth
      (m.logged w call) = some (w', failure) := by
  subst hm
  rw [performOn_eq] at h
  obtain ⟨⟨v, failure⟩, hrun, heq⟩ := Option.map_eq_some_iff.mp h
  simp only [Prod.mk.injEq] at heq
  obtain ⟨rfl, -, rfl⟩ := heq
  exact ⟨failure, hrun⟩

theorem config_of_performOn
    (h : m.performOn schedule bus depth call w = some (answer, n, w')) : n.config = m.config := by
  have hconfig := config_perform m call
  rwa [perform_of_performOn h] at hconfig

theorem tells_of_performOn (hm : m.config = c) (hw : w.Arises schedule)
    (h : m.performOn schedule bus depth call w = some (answer, n, w')) :
    w'.Arises schedule ∧ Tells bus (announcements c ⟨m, call, answer⟩) w w' := by
  obtain ⟨failure, hrun⟩ := exists_run_of_performOn hm h
  have hlogged : (m.logged w call).Arises schedule ∧ Tells bus [] w (m.logged w call) := by
    rcases m.logged_eq w call with heq | ⟨entry, heq⟩
    · rw [heq]
      exact ⟨hw, .aside bus w w.memory w.log⟩
    · rw [heq]
      exact ⟨hw.report entry, .aside bus w w.memory (w.log ++ [entry])⟩
  exact ⟨hlogged.1.run hrun, hlogged.2.trans (tells_of_announcing hlogged.1 hrun)⟩

theorem tells_of_course (hm : m.config = c) (hw : w.Arises schedule)
    (h : Course schedule (performOn schedule bus) m w log n w') :
    n.config = c ∧ w'.Arises schedule ∧ Tells bus (log.flatMap (announcements c)) w w' := by
  induction h with
  | start => exact ⟨hm, hw, .aside bus w w.memory w.log⟩
  | call _ hcall ih =>
    obtain ⟨hconfig, harises, htells⟩ := ih
    obtain ⟨harises', htells'⟩ := tells_of_performOn hconfig harises hcall
    rw [List.flatMap_append, List.flatMap_singleton]
    exact ⟨(config_of_performOn hcall).trans hconfig, harises', htells.trans htells'⟩
  | meanwhile _ hrun ih =>
    obtain ⟨hconfig, harises, htells⟩ := ih
    obtain ⟨depth, failure, hrun⟩ := hrun
    have htells' := htells.trans (tells_of_run harises hrun)
    rw [List.append_nil] at htells'
    exact ⟨hconfig, harises.run hrun, htells'⟩
  | @report _ v _ _ entry ih =>
    obtain ⟨hconfig, harises, htells⟩ := ih
    have htells' := htells.trans (.aside bus v v.memory (v.log ++ [entry]))
    rw [List.append_nil] at htells'
    exact ⟨hconfig, harises.report entry, htells'⟩

/-- The callback of a listener that one of these announcements found has no end. -/
def StopsInCallback (schedule : Schedule σ Transition) (bus : BusId) (depth : Nat)
    (announced : List (String × Transition)) : Prop :=
  ∃ a ∈ announced, ∃ found u : World σ Transition, ∃ l ∈ (found.store bus).listenersOf a.1,
    (l.callback a.2).run schedule depth u = none

theorem stops_of_announcing {announced : List (String × Transition)}
    (h : (announcing bus announced).run schedule (depth + 1) w = none) :
    StopsInCallback schedule bus depth announced := by
  induction announced generalizing w with
  | nil => exact absurd h (by simp [announcing, Script.run, Script.eval])
  | cons a rest ih =>
    unfold announcing Script.run Script.eval at h
    cases hpublish : publish schedule (Script.run schedule depth) bus a.1 a.2 w with
    | none =>
      obtain ⟨l, hl, u, hcall⟩ := exists_of_publish_eq_none hpublish
      exact ⟨a, List.mem_cons_self, w, _, l, hl, hcall⟩
    | some result =>
      rw [hpublish] at h
      obtain ⟨b, hb, hstop⟩ := ih h
      exact ⟨b, List.mem_cons_of_mem a hb, hstop⟩

/-- A call on a bus has no answer only if a callback that it sets off has no end. -/
theorem stops_of_performOn (hm : m.config = c)
    (h : m.performOn schedule bus (depth + 1) call w = none) :
    StopsInCallback schedule bus depth (announcements c ⟨m, call, (m.perform call).1⟩) := by
  subst hm
  rw [performOn_eq] at h
  exact stops_of_announcing (Option.map_eq_none_iff.mp h)

/-! ### What observers are told -/

theorem exchange_of_mem_exchanges {calls : List (Call String)}
    {x : Exchange Machine String Transition} (hx : x ∈ exchanges perform m calls) :
    x.before.config = m.config ∧ x.answer = (x.before.perform x.call).1 := by
  induction calls generalizing m with
  | nil => exact absurd hx List.not_mem_nil
  | cons call rest ih =>
    rcases List.mem_cons.mp hx with rfl | hx
    · exact ⟨rfl, rfl⟩
    · rw [← config_perform m call]
      exact ih hx

/-- A transition leads to a declared state. -/
theorem target_mem_of_transitionIn? (hc : c.definition.Closed)
    {x : Exchange Machine String Transition} (hconfig : x.before.config = c)
    (hanswer : x.answer = (x.before.perform x.call).1) {t : Transition}
    (ht : transitionIn? x = some t) : t.target ∈ c.states := by
  obtain ⟨before, call, answer⟩ := x
  simp only at hconfig hanswer
  subst hconfig hanswer
  cases call with
  | reset => exact absurd ht (by simp [transitionIn?])
  | fire event payload =>
    simp only [transitionIn?, perform_fire] at ht
    cases htarget : before.config.target? before.state event with
    | none => simp [htarget] at ht
    | some target =>
      simp only [htarget, Option.some.injEq] at ht
      subst ht
      exact hc.target before.state event target htarget

/-- What an observer of transitions is told of a call: the transition that it was answered with,
and once more if that led to a state of the same name as the event. -/
def transitionNotices (x : Exchange Machine String Transition) : List Transition :=
  match transitionIn? x with
  | none => []
  | some t => if t.target = transitionEvent then [t, t] else [t]

/-- What an observer of resets is told of a call: the reset, or a transition that led to a state
of the same name as the event. -/
def resetNotices (c : Config) (x : Exchange Machine String Transition) : List Transition :=
  match transitionIn? x with
  | none => (resetIn? c x).toList
  | some t => if t.target = resetEvent then [t] else []

/-- What observers of the two fixed names are told of a course. If no state has the name, that is
every transition once, or every reset once, in order. -/
structure ToldOf (c : Config) (log : List (Exchange Machine String Transition))
    (event : String) (notices : List Transition) : Prop where
  transitions : event = transitionEvent → notices = log.flatMap transitionNotices
  resets : event = resetEvent → notices = log.flatMap (resetNotices c)
  transitions_once : event = transitionEvent → transitionEvent ∉ c.states →
    notices = log.filterMap transitionIn?
  resets_once : event = resetEvent → resetEvent ∉ c.states →
    notices = log.filterMap (resetIn? c)

theorem transitionNotices_eq (x : Exchange Machine String Transition) :
    ((announcements c x).filter (·.1 = transitionEvent)).map Prod.snd = transitionNotices x := by
  have hdiffer : resetEvent ≠ transitionEvent := by decide
  unfold announcements transitionNotices
  cases transitionIn? x with
  | none => cases hreset : resetIn? c x <;> simp [hdiffer]
  | some t => by_cases ht : t.target = transitionEvent <;> simp [ht]

theorem resetNotices_eq (x : Exchange Machine String Transition) :
    ((announcements c x).filter (·.1 = resetEvent)).map Prod.snd = resetNotices c x := by
  have hdiffer : transitionEvent ≠ resetEvent := by decide
  unfold announcements resetNotices
  cases transitionIn? x with
  | none => cases hreset : resetIn? c x <;> simp
  | some t => by_cases ht : t.target = resetEvent <;> simp [ht, hdiffer]

theorem transitionNotices_of_ne {x : Exchange Machine String Transition}
    (h : ∀ t, transitionIn? x = some t → t.target ≠ transitionEvent) :
    transitionNotices x = (transitionIn? x).toList := by
  unfold transitionNotices
  cases ht : transitionIn? x with
  | none => rfl
  | some t => exact if_neg (h t ht)

theorem resetNotices_of_ne {x : Exchange Machine String Transition}
    (h : ∀ t, transitionIn? x = some t → t.target ≠ resetEvent) :
    resetNotices c x = (resetIn? c x).toList := by
  unfold resetNotices
  cases ht : transitionIn? x with
  | none => rfl
  | some t =>
    obtain ⟨before, call, answer⟩ := x
    cases call with
    | fire => exact if_neg (h t ht)
    | reset => exact absurd ht (by simp [transitionIn?])

/-- What is told under a name is told call by call. -/
theorem toldOf_announcements (htargets : ∀ x ∈ log, ∀ t, transitionIn? x = some t →
      t.target ∈ c.states) (event : String) :
    ToldOf c log event
      (((log.flatMap (announcements c)).filter (·.1 = event)).map Prod.snd) := by
  have hdeclared (hnone : event ∉ c.states) (x : Exchange Machine String Transition)
      (hx : x ∈ log) (t : Transition) (ht : transitionIn? x = some t) : t.target ≠ event :=
    fun htarget ↦ hnone (htarget ▸ htargets x hx t ht)
  rw [List.filter_flatMap, List.map_flatMap]
  refine ⟨?_, ?_, ?_, ?_⟩
  · rintro rfl
    exact List.flatMap_congr fun x _ ↦ transitionNotices_eq x
  · rintro rfl
    exact List.flatMap_congr fun x _ ↦ resetNotices_eq x
  · rintro rfl hnone
    rw [List.filterMap_eq_flatMap_toList]
    refine List.flatMap_congr fun x hx ↦ ?_
    rw [transitionNotices_eq, transitionNotices_of_ne (hdeclared hnone x hx)]
  · rintro rfl hnone
    rw [List.filterMap_eq_flatMap_toList]
    refine List.flatMap_congr fun x hx ↦ ?_
    rw [resetNotices_eq, resetNotices_of_ne (hdeclared hnone x hx)]

/-- On a bus with no more publications than the calls make, so that nobody else publishes on it,
an observer that is there before a course and is left alone is told of the changes that were
answered. The course can go on: another call has an answer unless the callback of a listener that
an announcement found has none. -/
theorem observer_told (hc : c.Admitted) (hm : m.config = c) (hw : w.Arises schedule)
    {s : Subscription} (h : Course schedule (performOn schedule s.bus) m w log n w')
    {stretch : List (Moment σ Transition)} (hstretch : w'.history = w.history ++ stretch)
    (hregistered : Registered s w.stores) (hleft : Undisturbed s stretch w')
    (hown : publicationsOn s.bus stretch ≤ (log.flatMap (announcements c)).length) :
    log = exchanges perform m (log.map Exchange.call) ∧
      ToldOf c log s.event (noticesOf s.id stretch) ∧
      ∀ depth call v, n.performOn schedule s.bus (depth + 1) call v = none →
        StopsInCallback schedule s.bus depth (announcements c ⟨n, call, (n.perform call).1⟩) := by
  have hlog := (h.eq_exchanges perform_of_performOn).1
  obtain ⟨hconfig, -, others, hothers, -, htold⟩ := tells_of_course hm hw h
  obtain rfl := hothers.unique hstretch
  refine ⟨hlog, ?_, fun depth call v hnone ↦ stops_of_performOn hconfig hnone⟩
  rw [(htold s rfl hregistered hleft hown).2]
  refine toldOf_announcements (fun x hx t ht ↦ ?_) s.event
  rw [hlog] at hx
  obtain ⟨hbefore, hanswer⟩ := exchange_of_mem_exchanges hx
  exact target_mem_of_transitionIn? hc.closed (hbefore.trans hm) hanswer ht

/-- Someone who watches transitions and fails, and someone who watches resets. -/
def watched : World Unit Transition :=
  (((World.empty ()).create.2.subscribe 0 transitionEvent false fun _ ↦ .fail .other).2.subscribe 0
    resetEvent false fun _ ↦ .done).2

theorem arises_watched : watched.Arises .inOrder :=
  .run (.empty ()) (rfl : (Script.create fun bus ↦
    .subscribe bus transitionEvent false (fun _ ↦ .fail .other) fun _ ↦
      .subscribe bus resetEvent false (fun _ ↦ .done) fun _ ↦ .done).run .inOrder 0 (.empty ()) =
        some (watched, none))

/-- A door that can be pulled open. -/
def door : Definition :=
  ⟨"shut", ["shut", "open"], .ofList [("shut", .ofList [("pull", "open")])]⟩

/-- The door is pulled, pulled once too often, and reset. -/
theorem observer_told_door :
    let c := Config.ofClosed "door" door
    c.Admitted ∧ watched.Arises .inOrder ∧ ∃ (w : World Unit Transition)
      (log : List (Exchange Machine String Transition)) (n : Machine)
      (stretch : List (Moment Unit Transition)),
      Course .inOrder (performOn .inOrder 0) (start c) watched log n w ∧
        noticesOf 0 stretch = [⟨"shut", "open", "pull", .null⟩] ∧
        noticesOf 1 stretch = [⟨"open", "shut", "reset", .null⟩] ∧
        ToldOf c log transitionEvent (noticesOf 0 stretch) ∧
        ToldOf c log resetEvent (noticesOf 1 stretch) := by
  intro c
  have hclosed : door.Closed := Definition.fault?_eq_none_iff.mp (by decide +kernel)
  have hc : c.Admitted := .ofDefinition (Config.ofDefinition_eq_ok_iff.mpr ⟨hclosed, rfl⟩)
  have hpulled : Course .inOrder (performOn .inOrder 0) (start c) watched _ _ _ :=
    .call .start (rfl : performOn .inOrder 0 1 _ (.fire "pull" .null) _ = some (_, _, _))
  have hagain := hpulled.call
    (rfl : performOn .inOrder 0 1 _ (.fire "pull" .null) _ = some (_, _, _))
  have hcourse := hagain.call (rfl : performOn .inOrder 0 1 _ .reset _ = some (_, _, _))
  have htransition := observer_told (s := ⟨0, transitionEvent, 0⟩) hc rfl arises_watched hcourse
    rfl (by decide +kernel) ⟨by decide +kernel, by decide +kernel⟩ (by decide +kernel)
  have hreset := observer_told (s := ⟨0, resetEvent, 1⟩) hc rfl arises_watched hcourse
    rfl (by decide +kernel) ⟨by decide +kernel, by decide +kernel⟩ (by decide +kernel)
  exact ⟨hc, arises_watched, _, _, _, _, hcourse, rfl, rfl, htransition.2.1, hreset.2.1⟩

/-- States may be named as the events are. -/
def namesakes : Config :=
  .ofClosed "namesakes" ⟨"idle", ["idle", "transition", "reset"],
    .ofList [("idle", .ofList [("go", "transition")]), ("transition", .ofList [("undo", "reset")])]⟩

/-- The transition into a state that is named so is told twice to who watches transitions, and
who watches resets is told of a transition. -/
theorem observer_told_of_namesakes :
    Config.ofDefinition "namesakes" namesakes.definition = .ok namesakes ∧
      watched.Arises .inOrder ∧
      ∃ (w : World Unit Transition) (log : List (Exchange Machine String Transition)) (n : Machine)
        (stretch : List (Moment Unit Transition)),
        Course .inOrder (performOn .inOrder 0) (start namesakes) watched log n w ∧
        w.history = watched.history ++ stretch ∧
        publicationsOn 0 stretch = (log.flatMap (announcements namesakes)).length ∧
        (Registered ⟨0, transitionEvent, 0⟩ watched.stores ∧
          Undisturbed ⟨0, transitionEvent, 0⟩ stretch w ∧
          noticesOf 0 stretch ≠ log.filterMap transitionIn?) ∧
        Registered ⟨0, resetEvent, 1⟩ watched.stores ∧
          Undisturbed ⟨0, resetEvent, 1⟩ stretch w ∧
          noticesOf 1 stretch ≠ log.filterMap (resetIn? namesakes) := by
  have hclosed : namesakes.definition.Closed :=
    Definition.fault?_eq_none_iff.mp (by decide +kernel)
  have hgone : Course .inOrder (performOn .inOrder 0) (start namesakes) watched _ _ _ :=
    .call .start (rfl : performOn .inOrder 0 1 _ (.fire "go" .null) _ = some (_, _, _))
  have hcourse := hgone.call
    (rfl : performOn .inOrder 0 1 _ (.fire "undo" .null) _ = some (_, _, _))
  refine ⟨Config.ofDefinition_eq_ok_iff.mpr ⟨hclosed, rfl⟩, arises_watched, _, _, _, _, hcourse,
    rfl, by decide +kernel, ⟨by decide +kernel, ⟨by decide +kernel, by decide +kernel⟩, fun h ↦ ?_⟩,
    by decide +kernel, ⟨by decide +kernel, by decide +kernel⟩, fun h ↦ ?_⟩
  · exact absurd (congrArg List.length h) (by decide +kernel)
  · exact absurd (congrArg List.length h) (by decide +kernel)

end AgentMarkup.Machine
