import AgentMarkup.Proofs.Bus.Notice

/-!
Where executions come to an end. A script that ends within some depth ends in the same way
within every greater depth (`run_mono`), so what it does does not depend on the depth. A
publication has no end at all only if it comes to a listener whose callback has none, after the
callbacks before that one had theirs (`stalls_of_publish`), and a list of announcements only if
one of them is such a publication (`exists_stalls_of_announcing`). Where nobody listens there is
nothing to wait for (`exists_run_announcing_of_silent`).
-/

set_option autoImplicit false
set_option relaxedAutoImplicit false

namespace AgentMarkup.Bus

variable {σ α : Type} {schedule : Schedule σ α}

/-! ### Greater depths -/

/-- Whether one way to run callbacks finds every end that another finds. -/
def Covers (more less : Script σ α → World σ α → Ending σ α) : Prop :=
  ∀ {script w ending}, less script w = some ending → more script w = some ending

section

variable {more less : Script σ α → World σ α → Ending σ α} {bus : BusId} {event : String}
  {payload : α} {number : Nat} {w w' : World σ α}

theorem deliver_mono (hmore : Covers more less) {listeners : List (Listener σ α)}
    (h : deliver less event payload number listeners w = some w') :
    deliver more event payload number listeners w = some w' := by
  induction listeners generalizing w with
  | nil => exact h
  | cons l rest ih =>
    cases hcall : less (l.callback payload) (w.record (.invoke number l.id payload)) with
    | none =>
      rw [deliver, hcall] at h
      exact absurd h (by simp)
    | some ending =>
      rw [deliver_cons_of_some hcall] at h
      rw [deliver_cons_of_some (hmore hcall)]
      exact ih h

theorem publish_mono (hmore : Covers more less) {result : Nat × World σ α}
    (h : publish schedule less bus event payload w = some result) :
    publish schedule more bus event payload w = some result := by
  obtain ⟨delivered, hdeliver, rfl⟩ := Option.map_eq_some_iff.mp h
  exact Option.map_eq_some_iff.mpr ⟨delivered, deliver_mono hmore hdeliver, rfl⟩

theorem eval_mono (hmore : Covers more less) :
    Covers (Script.eval schedule more) (Script.eval schedule less) := by
  intro script w ending h
  induction script generalizing w with
  | done | fail => exact h
  | publish bus event payload next ih =>
    rw [Script.eval] at h ⊢
    cases hpublish : Bus.publish schedule less bus event payload w with
    | none => simp [hpublish] at h
    | some result =>
      rw [hpublish] at h
      rw [publish_mono hmore hpublish]
      exact ih _ h
  | «recall» next ih | create next ih | unsubscribe bus s next ih | cancel s next ih
  | count bus event next ih | names bus next ih => exact ih _ h
  | remember memory next ih | clone bus next ih | drop bus next ih | clear bus event next ih =>
    exact ih h
  | subscribe bus event once callback next _ ih => exact ih _ h

end

theorem run_succ_mono (depth : Nat) :
    Covers (Script.run schedule (depth + 1)) (Script.run schedule depth) := by
  induction depth with
  | zero => exact eval_mono fun hnone ↦ absurd hnone (by simp)
  | succ depth ih => exact eval_mono ih

theorem run_mono {depth more : Nat} (h : depth ≤ more) :
    Covers (Script.run schedule more) (Script.run schedule depth) := by
  induction h with
  | refl => exact id
  | step _ ih => exact fun hrun ↦ run_succ_mono _ (ih hrun)

/-! ### Executions without end -/

/-- Whether a script has no end from a world, however deep publications may nest. -/
def Script.Endless (schedule : Schedule σ α) (script : Script σ α) (w : World σ α) : Prop :=
  ∀ depth, script.run schedule depth w = none

/-- Whether deliveries come to a listener whose callback has no end. -/
def StallsAmong (schedule : Schedule σ α) (event : String) (payload : α) (number : Nat)
    (listeners : List (Listener σ α)) (w : World σ α) : Prop :=
  ∃ done l rest depth v, listeners = done ++ l :: rest ∧
    deliver (Script.run schedule depth) event payload number done w = some v ∧
    (l.callback payload).Endless schedule (v.record (.invoke number l.id payload))

/-- Whether a publication comes to a listener whose callback has no end. -/
def Stalls (schedule : Schedule σ α) (bus : BusId) (event : String) (payload : α)
    (w : World σ α) : Prop :=
  StallsAmong schedule event payload w.history.length
    (schedule.arrange w.history.length ((w.store bus).listenersOf event))
    (w.beginPublication bus event payload)

theorem Script.exists_of_not_endless {script : Script σ α} {w : World σ α}
    (h : ¬script.Endless schedule w) :
    ∃ depth w' failure, script.run schedule depth w = some (w', failure) := by
  rw [Script.Endless, not_forall] at h
  obtain ⟨depth, hdepth⟩ := h
  obtain ⟨⟨w', failure⟩, hrun⟩ := Option.ne_none_iff_exists'.mp hdepth
  exact ⟨depth, w', failure, hrun⟩

/-- Of callbacks that are run one after the other, all before the first one without end come to
theirs. -/
theorem stallsAmong_of_deliver {event : String} {payload : α} {number : Nat}
    {listeners : List (Listener σ α)} {w : World σ α}
    (h : ∀ depth, deliver (Script.run schedule depth) event payload number listeners w = none) :
    StallsAmong schedule event payload number listeners w := by
  induction listeners generalizing w with
  | nil => exact absurd (h 0) (by simp [deliver])
  | cons l rest ih =>
    by_cases hendless :
        (l.callback payload).Endless schedule (w.record (.invoke number l.id payload))
    · exact ⟨[], l, rest, 0, w, rfl, rfl, hendless⟩
    · obtain ⟨first, called, failure, hcalled⟩ := Script.exists_of_not_endless hendless
      have hcons (depth : Nat) (hdepth : first ≤ depth) (others : List (Listener σ α)) :
          deliver (Script.run schedule depth) event payload number (l :: others) w = _ :=
        deliver_cons_of_some (run_mono hdepth hcalled)
      have hrest (depth : Nat) : deliver (Script.run schedule depth) event payload number rest
          (failure.elim called fun failure ↦ called.report (failureLog event failure)) = none := by
        refine Option.eq_none_iff_forall_ne_some.mpr fun v hv ↦ ?_
        have hwhole := h (max first depth)
        rw [hcons _ (Nat.le_max_left first depth),
          deliver_mono (run_mono (Nat.le_max_right first depth)) hv] at hwhole
        exact absurd hwhole (by simp)
      obtain ⟨done, other, later, depth, v, rfl, hdone, hother⟩ := ih hrest
      refine ⟨l :: done, other, later, max first depth, v, rfl, ?_, hother⟩
      rw [hcons _ (Nat.le_max_left first depth)]
      exact deliver_mono (run_mono (Nat.le_max_right first depth)) hdone

/-- A publication that has no end comes to a listener whose callback has none. -/
theorem stalls_of_publish {bus : BusId} {event : String} {payload : α} {w : World σ α}
    (h : ∀ depth, publish schedule (Script.run schedule depth) bus event payload w = none) :
    Stalls schedule bus event payload w :=
  stallsAmong_of_deliver fun depth ↦ Option.map_eq_none_iff.mp (h depth)

/-! ### Announcements -/

/-- Whether announcements come to one whose publication has no end, after those before it. -/
def StallsAnnouncing (schedule : Schedule σ α) (bus : BusId) (announced : List (String × α))
    (w : World σ α) : Prop :=
  ∃ before a after depth v, announced = before ++ a :: after ∧
    (announcing bus before).run schedule depth w = some (v, none) ∧
    Stalls schedule bus a.1 a.2 v

theorem run_announcing_cons {bus : BusId} {a : String × α} {depth invoked : Nat}
    {w v : World σ α}
    (h : publish schedule (Script.run schedule depth) bus a.1 a.2 w = some (invoked, v))
    (rest : List (String × α)) :
    (announcing bus (a :: rest)).run schedule (depth + 1) w =
      (announcing bus rest).run schedule (depth + 1) v := by
  change Script.eval schedule (Script.run schedule depth) (announcing bus (a :: rest)) w = _
  rw [announcing, Script.eval, h]
  rfl

theorem stallsAnnouncing_of_endless {bus : BusId} {announced : List (String × α)}
    {w : World σ α} (h : (announcing bus announced).Endless schedule w) :
    StallsAnnouncing schedule bus announced w := by
  induction announced generalizing w with
  | nil => exact absurd (h 0) (by simp [announcing, Script.run, Script.eval])
  | cons a rest ih =>
    by_cases hstalls : ∀ depth, publish schedule (Script.run schedule depth) bus a.1 a.2 w = none
    · exact ⟨[], a, rest, 0, w, rfl, rfl, stalls_of_publish hstalls⟩
    · rw [not_forall] at hstalls
      obtain ⟨first, hfirst⟩ := hstalls
      obtain ⟨⟨invoked, v⟩, hpublish⟩ := Option.ne_none_iff_exists'.mp hfirst
      have hcons (depth : Nat) (hdepth : first ≤ depth) (others : List (String × α)) :
          (announcing bus (a :: others)).run schedule (depth + 1) w =
            (announcing bus others).run schedule (depth + 1) v :=
        run_announcing_cons (publish_mono (run_mono hdepth) hpublish) others
      have hrest : (announcing bus rest).Endless schedule v := by
        intro depth
        refine Option.eq_none_iff_forall_ne_some.mpr fun ending hending ↦ ?_
        have hwhole := h (max first depth + 1)
        have hdepth : depth ≤ max first depth + 1 :=
          Nat.le_succ_of_le (Nat.le_max_right first depth)
        rw [hcons _ (Nat.le_max_left first depth), run_mono hdepth hending] at hwhole
        exact absurd hwhole (by simp)
      obtain ⟨before, b, after, depth, u, rfl, hbefore, hstall⟩ := ih hrest
      refine ⟨a :: before, b, after, max first depth + 1, u, rfl, ?_, hstall⟩
      rw [hcons _ (Nat.le_max_left first depth)]
      exact run_mono (Nat.le_succ_of_le (Nat.le_max_right first depth)) hbefore

/-! ### Buses that nobody listens to -/

/-- Whether a bus has no listeners. -/
def Silent (bus : BusId) (w : World σ α) : Prop :=
  ∀ event, (w.store bus).listenersOf event = []

theorem Silent.of_thins {bus : BusId} {w v : World σ α} (h : Silent bus w)
    (hthins : Thins v.stores w.stores) : Silent bus v :=
  fun event ↦ List.sublist_nil.mp (h event ▸ hthins bus event)

/-- A publication on a silent bus invokes nobody and leaves the bus silent. -/
theorem publish_of_silent (schedule : Schedule σ α) {bus : BusId} {w : World σ α}
    (h : Silent bus w) (event : String) (payload : α) :
    ∃ v, Silent bus v ∧ ∀ call : Script σ α → World σ α → Ending σ α,
      publish schedule call bus event payload w = some (0, v) := by
  have hnone : schedule.arrange w.history.length ((w.store bus).listenersOf event) = [] :=
    List.perm_nil.mp (h event ▸ schedule.perm _ _)
  have hbegin : Silent bus (w.beginPublication bus event payload) :=
    h.of_thins (thins_beginPublication w bus event payload)
  refine ⟨(w.beginPublication bus event payload).concludePublication bus w.history.length 0,
    hbegin.of_thins (thins_modify Store.sublist_release _ bus), fun call ↦ ?_⟩
  rw [publish, hnone, h event]
  rfl

/-- On a silent bus announcements come to an end within every depth, with the same end. -/
theorem exists_run_announcing_of_silent (schedule : Schedule σ α) {bus : BusId} {w : World σ α}
    (h : Silent bus w) (announced : List (String × α)) :
    ∃ v, Silent bus v ∧ ∀ depth, (announcing bus announced).run schedule depth w =
      some (v, none) := by
  have heval : ∃ v, Silent bus v ∧ ∀ call : Script σ α → World σ α → Ending σ α,
      (announcing bus announced).eval schedule call w = some (v, none) := by
    induction announced generalizing w with
    | nil => exact ⟨w, h, fun _ ↦ rfl⟩
    | cons a rest ih =>
      obtain ⟨v, hv, hpublish⟩ := publish_of_silent schedule h a.1 a.2
      obtain ⟨u, hu, hrest⟩ := ih hv
      refine ⟨u, hu, fun call ↦ ?_⟩
      rw [announcing, Script.eval, hpublish]
      exact hrest call
  obtain ⟨v, hv, heval⟩ := heval
  refine ⟨v, hv, fun depth ↦ ?_⟩
  cases depth with
  | zero => exact heval _
  | succ depth => exact heval _

end AgentMarkup.Bus
