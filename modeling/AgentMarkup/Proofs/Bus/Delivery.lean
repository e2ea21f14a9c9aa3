import AgentMarkup.Proofs.Bus.Invocation
import AgentMarkup.Proofs.Bus.Registration

/-!
What publications do. `deeds` lists what a history says the publication of a number did after
its beginning, and `due` what the buses at its beginning call for: the invocation of every
listener registered then, in the order of the schedule, and the conclusion with their number.
The two agree for whole runs, because they do for each operation and for a publication whose
callbacks are whole runs again (`composes_settles`). So a publication delivers to those whom
it found at its beginning, whatever they do.
-/

set_option autoImplicit false
set_option relaxedAutoImplicit false

namespace AgentMarkup.Bus

variable {σ α : Type}

/-- What the publication of this number did after its beginning, in order. -/
def deeds (number : Nat) (history : List (Moment σ α)) : List (Act α) :=
  (acts history).filter (Act.belongsTo number)

/-- What a moment calls for if the publication of this number begins in it. -/
def Moment.owes (schedule : Schedule σ α) (number : Nat) (m : Moment σ α) : List (Act α) :=
  match m.act with
  | .publish bus event payload =>
    (schedule.arrange number ((storeOf m.stores bus).listenersOf event)).map
        (fun l ↦ .invoke number l.id payload) ++
      [.conclude number ((storeOf m.stores bus).listenersOf event).length]
  | .create _ | .clone _ | .drop _ | .subscribe _ _ | .unsubscribe _ _ _ | .cancel _ _
  | .invoke _ _ _ | .conclude _ _ | .clear _ _ | .count _ _ _ | .names _ _ => []

/-- What a stretch of a history with so many moments before it calls for from the publication
of this number. -/
def due (schedule : Schedule σ α) (number : Nat) : Nat → List (Moment σ α) → List (Act α)
  | _, [] => []
  | before, m :: rest =>
    (if before = number then m.owes schedule number else []) ++
      due schedule number (before + 1) rest

theorem deeds_append (number : Nat) (first second : List (Moment σ α)) :
    deeds number (first ++ second) = deeds number first ++ deeds number second := by
  rw [deeds, acts_append, List.filter_append]
  rfl

theorem deeds_cons (number : Nat) (m : Moment σ α) (rest : List (Moment σ α)) :
    deeds number (m :: rest) =
      (if m.act.belongsTo number = true then [m.act] else []) ++ deeds number rest := by
  change List.filter _ (m.act :: acts rest) = _
  rw [List.filter_cons]
  split_ifs <;> rfl

variable {schedule : Schedule σ α}

theorem due_append (number before : Nat) (first second : List (Moment σ α)) :
    due schedule number before (first ++ second) =
      due schedule number before first ++
        due schedule number (before + first.length) second := by
  induction first generalizing before with
  | nil => simp [due]
  | cons m rest ih =>
    rw [List.cons_append, due, due, ih, List.append_assoc, List.length_cons]
    congr 3
    omega

theorem due_eq_nil_of_lt {number before : Nat} (h : number < before)
    (history : List (Moment σ α)) : due schedule number before history = [] := by
  induction history generalizing before with
  | nil => rfl
  | cons m rest ih =>
    rw [due, if_neg (Nat.ne_of_gt h), ih (Nat.lt_succ_of_lt h), List.nil_append]

theorem due_eq_nil_of_le {number before : Nat} {history : List (Moment σ α)}
    (h : before + history.length ≤ number) : due schedule number before history = [] := by
  induction history generalizing before with
  | nil => rfl
  | cons m rest ih =>
    rw [List.length_cons] at h
    rw [due, if_neg (by omega), ih (by omega), List.nil_append]

/-! ### Deeds are what is due -/

/-- Whether the publications of the stretch between two worlds did what they had to, and no
other publication did anything in it. -/
def Settles (schedule : Schedule σ α) (w w' : World σ α) : Prop :=
  ∃ stretch, w'.history = w.history ++ stretch ∧
    ∀ number, deeds number stretch = due schedule number w.history.length stretch

theorem settles_of_plain {w w' : World σ α} (h : Plain w w') : Settles schedule w w' := by
  have hsingle {act : Act α} (hdeeds : ∀ number, act.belongsTo number = false)
      (howes : ∀ number, Moment.owes schedule number ⟨w.stores, act⟩ = []) (number : Nat) :
      deeds number [⟨w.stores, act⟩] =
        due schedule number w.history.length [⟨w.stores, act⟩] := by
    rw [due, howes, ite_self, due, List.append_nil]
    exact List.filter_cons_of_neg (by simp [hdeeds])
  cases h with
  | aside => exact ⟨[], (List.append_nil _).symm, fun _ ↦ rfl⟩
  | subscribe => exact ⟨[_], rfl, hsingle (fun _ ↦ rfl) (fun _ ↦ rfl)⟩
  | @quiet act _ hact _ =>
    refine ⟨[_], rfl, hsingle hact.belongsTo_eq_false fun _ ↦ ?_⟩
    cases act <;> first | rfl | exact hact.elim

theorem Settles.trans {u v w : World σ α} (hfirst : Settles schedule u v)
    (hsecond : Settles schedule v w) : Settles schedule u w := by
  obtain ⟨first, hv, hfirst⟩ := hfirst
  obtain ⟨second, hw, hsecond⟩ := hsecond
  refine ⟨first ++ second, by rw [hw, hv, List.append_assoc], fun number ↦ ?_⟩
  rw [deeds_append, due_append, hfirst, hsecond, hv, List.length_append]

/-- A publication invokes its listeners one by one; all else that happens meanwhile belongs to
publications that began later. -/
theorem deeds_of_deliver {call : Script σ α → World σ α → Ending σ α}
    (hcall : ∀ {script w w' failure}, call script w = some (w', failure) →
      Settles schedule w w')
    {event : String} {payload : α} {number : Nat} {listeners : List (Listener σ α)}
    {w w' : World σ α} (hnumber : number < w.history.length)
    (h : deliver call event payload number listeners w = some w') :
    ∃ stretch, w'.history = w.history ++ stretch ∧ ∀ k, deeds k stretch =
      (if k = number then listeners.map (fun l ↦ .invoke number l.id payload) else []) ++
        due schedule k w.history.length stretch := by
  induction listeners generalizing w with
  | nil =>
    obtain rfl := Option.some.inj h
    exact ⟨[], (List.append_nil _).symm, fun k ↦ by simp [deeds, due, acts]⟩
  | cons l rest ih =>
    obtain ⟨called, failure, log, hcalled, hrest⟩ := exists_of_deliver_cons h
    obtain ⟨inner, hinner, hsettled⟩ := hcall hcalled
    have hhistory : called.history =
        w.history ++ (⟨w.stores, .invoke number l.id payload⟩ :: inner) := by
      rw [hinner]
      exact List.append_assoc _ _ _
    have hlength : called.history.length = w.history.length + 1 + inner.length := by
      rw [hhistory, List.length_append, List.length_cons]
      omega
    obtain ⟨outer, houter, hdeeds⟩ := ih (by simp only; omega) hrest
    refine ⟨⟨w.stores, .invoke number l.id payload⟩ :: (inner ++ outer), ?_, fun k ↦ ?_⟩
    · rw [houter]
      simp only [hhistory, List.append_assoc, List.cons_append]
    · have hstart : (w.record (.invoke number l.id payload)).history.length =
          w.history.length + 1 := List.length_append
      rw [deeds_cons, deeds_append, hsettled, hdeeds, hstart]
      simp only [hlength]
      rw [due, due_append]
      by_cases hk : k = number
      · -- what began in the stretch has a greater number
        subst hk
        rw [due_eq_nil_of_lt (Nat.lt_succ_of_lt hnumber),
          due_eq_nil_of_lt (Nat.lt_add_right inner.length (Nat.lt_succ_of_lt hnumber))]
        simp [Act.belongsTo, Moment.owes]
      · simp [Act.belongsTo, Moment.owes, hk, Ne.symm hk]

theorem composes_settles (schedule : Schedule σ α) : Composes schedule (Settles schedule) where
  refl w := ⟨[], (List.append_nil _).symm, fun _ ↦ rfl⟩
  trans := Settles.trans
  plain := settles_of_plain
  publish hcall bus event payload w invoked w' h := by
    obtain ⟨rfl, delivered, hdeliver, rfl⟩ := exists_of_publish h
    have hstart := length_history_beginPublication w bus event payload
    obtain ⟨stretch, hhistory, hdeeds⟩ :=
      deeds_of_deliver (fun hend ↦ (hcall hend).2) (by omega) hdeliver
    rw [hstart] at hdeeds
    refine ⟨⟨w.stores, .publish bus event payload⟩ ::
      (stretch ++ [⟨delivered.stores, .conclude w.history.length ((w.store bus).count event)⟩]),
      ?_, fun k ↦ ?_⟩
    · change delivered.history ++ [_] = _
      rw [hhistory]
      exact (List.append_assoc _ _ _).trans (List.append_assoc _ _ _)
    · rw [deeds_cons, deeds_append, hdeeds, due, due_append]
      by_cases hk : k = w.history.length
      · subst hk
        rw [due_eq_nil_of_lt (Nat.lt_succ_self _)]
        simp [deeds, acts, due, Act.belongsTo, Moment.owes, World.store, Store.count]
      · simp [deeds, acts, due, Act.belongsTo, Moment.owes, hk, Ne.symm hk]

/-! ### Publications in whole executions -/

namespace World.Arises

variable {w : World σ α} {before after : List (Moment σ α)} {m : Moment σ α}

theorem deeds_eq_due (h : w.Arises schedule) (number : Nat) :
    deeds number w.history = due schedule number 0 w.history := by
  obtain ⟨memory, stretch, hhistory, hdeeds⟩ := (composes_settles schedule).of_arises h
  rw [hhistory]
  exact hdeeds number

/-- A publication does what the moment in which it begins calls for, and nothing else. -/
theorem deeds_eq_owes (h : w.Arises schedule) (hhistory : w.history = before ++ m :: after) :
    deeds before.length w.history = m.owes schedule before.length := by
  rw [h.deeds_eq_due, hhistory, due_append, due, due_eq_nil_of_le (Nat.le_of_eq (Nat.zero_add _)),
    Nat.zero_add, if_pos rfl, due_eq_nil_of_lt (Nat.lt_succ_self _), List.nil_append,
    List.append_nil]

theorem number_lt_length (h : w.Arises schedule) (hhistory : w.history = before ++ m :: after)
    {number : Nat} (hm : m.act.belongsTo number = true) : number < before.length := by
  obtain ⟨u, v, -, hmove, -, rfl, -, hv⟩ := h.exists_worlds hhistory
  have htells := hmove.tells hv
  cases hact : m.act with
  | invoke | conclude =>
    rw [hact] at hm htells
    exact of_decide_eq_true hm ▸ htells
  | create | clone | drop | subscribe | unsubscribe | cancel | publish | clear | count | names =>
    rw [hact] at hm
    exact absurd hm Bool.false_ne_true

theorem deeds_before_eq_nil (h : w.Arises schedule)
    (hhistory : w.history = before ++ m :: after) : deeds before.length before = [] := by
  rw [deeds, List.filter_eq_nil_iff]
  intro act hact hbelongs
  obtain ⟨first, stores, second, hsplit⟩ := exists_of_mem_acts hact
  have hpart : w.history = first ++ ⟨stores, act⟩ :: (second ++ m :: after) := by
    rw [hhistory, hsplit, List.append_assoc, List.cons_append]
  have hlate : before.length < first.length := h.number_lt_length hpart hbelongs
  have hlength : before.length = first.length + (second.length + 1) := by
    rw [hsplit, List.length_append, List.length_cons]
  omega

/-- The invocation of a listener that a publication found runs the callback of that very
listener, since the listeners of a publication differ in their numbers. -/
theorem runsCallback_of_mem (h : w.Arises schedule) {stores : List (Store σ α)} {bus : BusId}
    {event : String} {payload : α}
    (hhistory : w.history = before ++ ⟨stores, .publish bus event payload⟩ :: after)
    {l : Listener σ α} (hl : l ∈ (storeOf stores bus).listenersOf event) :
    ∃ part stores', RunsCallback schedule l payload
      (part ++ [⟨stores', .invoke before.length l.id payload⟩]) w.history := by
  have hordered : l ∈ schedule.arrange before.length ((storeOf stores bus).listenersOf event) :=
    (schedule.perm _ _).mem_iff.mpr hl
  have hdeed : .invoke before.length l.id payload ∈ deeds before.length w.history := by
    rw [h.deeds_eq_owes hhistory]
    exact List.mem_append_left _ (List.mem_map_of_mem hordered)
  obtain ⟨part, stores', rest, hsplit⟩ := exists_of_mem_acts (List.mem_filter.mp hdeed).1
  have hpart : part ++ [⟨stores', .invoke before.length l.id payload⟩] <+: w.history :=
    ⟨rest, (hsplit.trans (List.append_cons _ _ _)).symm⟩
  obtain ⟨other, hid, ⟨_, found, b, e, _, hlength, hfound, hother⟩, hruns⟩ :=
    h.exists_of_invoke hpart rfl
  have hsame := (List.append_inj (hhistory.symm.trans hfound) hlength.symm).2
  obtain ⟨rfl, hact⟩ := Moment.mk.inj (List.cons.inj hsame).1
  obtain ⟨rfl, rfl, -⟩ := Act.publish.inj hact
  obtain rfl := List.inj_on_of_nodup_map (h.nodup_ids hhistory bus event) hother hl hid
  exact ⟨part, stores', hruns⟩

end World.Arises

/-- What the publication does that begins after the first part of a history, with these
buses, given the order in which it takes its listeners. -/
structure DeliversSnapshot (schedule : Schedule σ α) (before after : List (Moment σ α))
    (stores : List (Store σ α)) (bus : BusId) (event : String) (payload : α)
    (history : List (Moment σ α)) (order : List (Listener σ α)) : Prop where
  snapshot : order.Perm ((storeOf stores bus).listenersOf event)
  distinct : (order.map Listener.id).Nodup
  /-- It invokes these listeners with its payload, one after the other, and no others. -/
  invoked : deeds before.length before = [] ∧ deeds before.length after =
    order.map (fun l ↦ .invoke before.length l.id payload) ++
      [.conclude before.length ((storeOf stores bus).count event)]
  /-- To invoke a listener is to run its callback to an end. -/
  run : ∀ l ∈ order, ∃ part stores', RunsCallback schedule l payload
    (part ++ [⟨stores', .invoke before.length l.id payload⟩]) history
  added : ∀ s once, .subscribe s once ∈ acts after → ∀ l ∈ order, l.id ≠ s.id
  /-- Its answer is the number of listeners just before it. -/
  answer : ∀ (call : Script σ α → World σ α → Ending σ α) (u u' : World σ α) (invoked : Nat),
    u.stores = stores → publish schedule call bus event payload u = some (invoked, u') →
      invoked = (u.count bus event).1
  /-- Nothing but a callback without an end keeps it from answering. -/
  ends : ∀ (call : Script σ α → World σ α → Ending σ α) (u : World σ α),
    u.stores = stores → publish schedule call bus event payload u = none →
      ∃ l ∈ order, ∃ v : World σ α,
        call (l.callback payload) (v.record (.invoke u.history.length l.id payload)) = none

/-- A publication invokes the listeners that were registered for its event on its bus when it
began, each of them once and with its payload, whatever their callbacks do: listeners that a
callback takes away are invoked all the same, and listeners subscribed meanwhile are not. -/
theorem publication_delivers_snapshot {w : World σ α} (h : w.Arises schedule)
    {before after : List (Moment σ α)} {stores : List (Store σ α)} {bus : BusId}
    {event : String} {payload : α}
    (hhistory : w.history = before ++ ⟨stores, .publish bus event payload⟩ :: after) :
    ∃ order, DeliversSnapshot schedule before after stores bus event payload w.history order := by
  have hperm := schedule.perm before.length ((storeOf stores bus).listenersOf event)
  have hnone := h.deeds_before_eq_nil hhistory
  have hdeeds := h.deeds_eq_owes hhistory
  rw [hhistory, deeds_append, deeds_cons, hnone] at hdeeds
  refine ⟨_, hperm, ?_, ⟨hnone, hdeeds⟩, fun l hl ↦ ?_, fun s once hs l hl ↦ ?_, ?_, ?_⟩
  · exact ((hperm.map Listener.id).nodup_iff).mpr (h.nodup_ids hhistory bus event)
  · exact h.runsCallback_of_mem hhistory (hperm.mem_iff.mp hl)
  · exact h.id_ne_of_subscribe hhistory (hperm.mem_iff.mp hl) hs
  · rintro call u u' invoked rfl hpublish
    exact (exists_of_publish hpublish).1
  · rintro call u rfl hpublish
    obtain ⟨l, hl, hcall⟩ := exists_of_publish_eq_none hpublish
    exact ⟨l, hperm.mem_iff.mpr hl, hcall⟩

/-- Listeners with the latest subscription first. -/
def Schedule.latestFirst {σ α : Type} : Schedule σ α :=
  ⟨fun _ listeners ↦ listeners.reverse, fun _ listeners ↦ listeners.reverse_perm⟩

/-- The second of two listeners takes the first away, subscribes a third and fails. -/
def interfering : Script Unit Nat :=
  .create fun bus ↦ .subscribe bus "tick" false (fun _ ↦ .done) fun first ↦
    .subscribe bus "tick" false
      (fun _ ↦ .unsubscribe bus first fun _ ↦
        .subscribe bus "tick" false (fun _ ↦ .done) fun _ ↦ .fail .other)
      fun _ ↦ .publish bus "tick" 7 fun _ ↦ .done

theorem publication_delivers_snapshot_interfering :
    ∃ w : World Unit Nat, w.Arises .latestFirst ∧ ∃ before stores after order,
      w.history = before ++ ⟨stores, .publish 0 "tick" 7⟩ :: after ∧
      acts after = [.invoke 3 1 7, .unsubscribe 0 ⟨0, "tick", 0⟩ true,
        .subscribe ⟨0, "tick", 2⟩ false, .invoke 3 0 7, .conclude 3 2] ∧
      DeliversSnapshot .latestFirst before after stores 0 "tick" 7 w.history order := by
  obtain ⟨w, harises, before, stores, after, hhistory, hacts⟩ :
      ∃ w : World Unit Nat, w.Arises .latestFirst ∧ ∃ before stores after,
        w.history = before ++ ⟨stores, .publish 0 "tick" 7⟩ :: after ∧
        acts after = [.invoke 3 1 7, .unsubscribe 0 ⟨0, "tick", 0⟩ true,
          .subscribe ⟨0, "tick", 2⟩ false, .invoke 3 0 7, .conclude 3 2] :=
    ⟨_, .run (.empty ())
      (rfl : interfering.run .latestFirst 1 (World.empty ()) = some (_, _)),
      [_, _, _], _, _, rfl, by decide +kernel⟩
  obtain ⟨order, hdelivers⟩ := publication_delivers_snapshot harises hhistory
  exact ⟨w, harises, before, stores, after, order, hhistory, hacts, hdelivers⟩

end AgentMarkup.Bus
