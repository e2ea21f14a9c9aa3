import AgentMarkup.Proofs.Bus.Once
import AgentMarkup.Proofs.Bus.Persistence

/-!
What a persistent subscriber is told. A client that makes announcements on a bus publishes them
one after the other. If nobody else publishes on the bus, a persistent subscriber that is left
alone is told of exactly the announcements of its event, once each and in order (`Tells`): every
invocation in a stretch comes from a publication of the stretch that found the listener
(`exists_reaches_of_mem`), and the announcements are all the publications there are. What goes
on between announcements tells it nothing.
-/

set_option autoImplicit false
set_option relaxedAutoImplicit false

namespace AgentMarkup.Bus

variable {σ α : Type}

/-! ### Notices and publications in a history -/

def Act.payload? : Act α → Option α
  | .invoke _ _ payload => some payload
  | .create _ | .clone _ | .drop _ | .subscribe _ _ | .unsubscribe _ _ _ | .cancel _ _
  | .publish _ _ _ | .conclude _ _ | .clear _ _ | .count _ _ _ | .names _ _ => none

/-- The payloads that the listener of this number was invoked with, in order. -/
def noticesOf (id : Nat) (history : List (Moment σ α)) : List α :=
  (invocationsOf id history).filterMap Act.payload?

def Act.publishesOn (bus : BusId) : Act α → Bool
  | .publish other _ _ => other = bus
  | .create _ | .clone _ | .drop _ | .subscribe _ _ | .unsubscribe _ _ _ | .cancel _ _
  | .invoke _ _ _ | .conclude _ _ | .clear _ _ | .count _ _ _ | .names _ _ => false

/-- How often something is published on a bus. -/
def publicationsOn (bus : BusId) (history : List (Moment σ α)) : Nat :=
  (acts history).countP (Act.publishesOn bus)

theorem noticesOf_append (id : Nat) (first second : List (Moment σ α)) :
    noticesOf id (first ++ second) = noticesOf id first ++ noticesOf id second := by
  rw [noticesOf, invocationsOf, acts_append, List.filter_append, List.filterMap_append]
  rfl

theorem publicationsOn_append (bus : BusId) (first second : List (Moment σ α)) :
    publicationsOn bus (first ++ second) =
      publicationsOn bus first + publicationsOn bus second := by
  rw [publicationsOn, acts_append, List.countP_append]
  rfl

theorem publicationsOn_pos {s : Subscription} {payload : α} {m : Moment σ α}
    {stretch : List (Moment σ α)} (hm : m ∈ stretch) (hreach : Reaches s payload m) :
    0 < publicationsOn s.bus stretch := by
  refine List.countP_pos_iff.mpr ⟨m.act, List.mem_map_of_mem hm, ?_⟩
  rw [hreach.1, Act.publishesOn, decide_eq_true_eq]

/-! ### Invocations in a stretch -/

section

variable {schedule : Schedule σ α} {w w' : World σ α} {stretch : List (Moment σ α)}
  {s : Subscription} {once : Bool}

/-- An invocation in a stretch comes from a publication in the same stretch that found the
listener, since publications that began before have been concluded. -/
theorem exists_reaches_of_mem (h : w'.Arises schedule) (hsettles : Settles schedule w w')
    (hstretch : w'.history = w.history ++ stretch) (hs : .subscribe s once ∈ acts w'.history)
    {act : Act α} (hact : act ∈ acts stretch) (hinvokes : act.invokes s.id = true) :
    ∃ first m second payload, stretch = first ++ m :: second ∧ Reaches s payload m ∧
      act = .invoke (w.history.length + first.length) s.id payload := by
  have hwhole : act ∈ acts w'.history := by
    rw [hstretch, acts_append]
    exact List.mem_append_right _ hact
  obtain ⟨before, m, after, payload, hhistory, hreach, rfl⟩ :=
    h.exists_reaches hs hwhole hinvokes
  obtain ⟨others, hothers, hdeeds⟩ := hsettles
  obtain rfl := List.append_cancel_left (hothers.symm.trans hstretch)
  have hlate : w.history.length ≤ before.length := by
    by_contra hearly
    have hnone := hdeeds before.length
    rw [due_eq_nil_of_lt (Nat.lt_of_not_le hearly)] at hnone
    have hdeed : .invoke before.length s.id payload ∈ deeds before.length others :=
      List.mem_filter.mpr ⟨hact, by simp [Act.belongsTo]⟩
    rw [hnone] at hdeed
    exact absurd hdeed List.not_mem_nil
  rw [hstretch] at hhistory
  obtain ⟨first, rfl, hrest⟩ | ⟨rest, hbefore, hrest⟩ := List.append_eq_append_iff.mp hhistory
  · exact ⟨first, m, after, payload, hrest, hreach, by rw [List.length_append]⟩
  · have hlength := congrArg List.length hbefore
    rw [List.length_append] at hlength
    obtain rfl := List.eq_nil_of_length_eq_zero (by omega : rest.length = 0)
    rw [List.append_nil] at hbefore
    refine ⟨[], m, after, payload, hrest.symm, hreach, ?_⟩
    rw [hbefore, List.length_nil, Nat.add_zero]

/-- Without publications on its bus a listener is told nothing. -/
theorem noticesOf_eq_nil (h : w'.Arises schedule) (hsettles : Settles schedule w w')
    (hstretch : w'.history = w.history ++ stretch) (hs : .subscribe s once ∈ acts w'.history)
    (hquiet : publicationsOn s.bus stretch = 0) : noticesOf s.id stretch = [] := by
  have hnone : invocationsOf s.id stretch = [] := by
    refine List.filter_eq_nil_iff.mpr fun act hact hinvokes ↦ ?_
    obtain ⟨first, m, second, payload, hsplit, hreach, -⟩ :=
      exists_reaches_of_mem h hsettles hstretch hs hact hinvokes
    have hm : m ∈ stretch := hsplit ▸ List.mem_append_right _ List.mem_cons_self
    have hpos := publicationsOn_pos hm hreach
    omega
  rw [noticesOf, hnone, List.filterMap_nil]

/-- If a publication has no other on its bus within it, it is the one that invokes a listener of
this bus meanwhile. -/
theorem invocationsOf_publication {rest : List (Moment σ α)} {event : String} {payload : α}
    (h : w'.Arises schedule) (hsettles : Settles schedule w w')
    (hstretch : w'.history = w.history ++ ⟨w.stores, .publish s.bus event payload⟩ :: rest)
    (hs : .subscribe s once ∈ acts w'.history) (hquiet : publicationsOn s.bus rest = 0) :
    invocationsOf s.id (⟨w.stores, .publish s.bus event payload⟩ :: rest) =
      ((⟨w.stores, .publish s.bus event payload⟩ : Moment σ α).owes schedule
        w.history.length).filter (Act.invokes s.id) := by
  have honly : ∀ act ∈ acts (⟨w.stores, .publish s.bus event payload⟩ :: rest),
      act.invokes s.id = (act.invokes s.id && act.belongsTo w.history.length) := by
    intro act hact
    cases hinvokes : act.invokes s.id with
    | false => rfl
    | true =>
      obtain ⟨first, m, second, told, hsplit, hreach, rfl⟩ :=
        exists_reaches_of_mem h hsettles hstretch hs hact hinvokes
      -- the publication is the first moment, as there is none in the rest
      cases first with
      | nil => simp [Act.belongsTo]
      | cons other others =>
        have hm : m ∈ rest := by
          rw [(List.cons.inj hsplit).2]
          exact List.mem_append_right _ List.mem_cons_self
        have hpos := publicationsOn_pos hm hreach
        omega
  obtain ⟨others, hothers, hdeeds⟩ := hsettles
  obtain rfl := List.append_cancel_left (hothers.symm.trans hstretch)
  have hdeeds := hdeeds w.history.length
  rw [due, if_pos rfl, due_eq_nil_of_lt (Nat.lt_succ_self _), List.append_nil] at hdeeds
  rw [← hdeeds, invocationsOf, deeds, List.filter_filter]
  exact List.filter_congr honly

/-- A publication with no other on its bus within it tells a registered listener of the event
its payload, and other listeners nothing. -/
theorem noticesOf_publication {rest : List (Moment σ α)} {event : String} {payload : α}
    (h : w'.Arises schedule) (hsettles : Settles schedule w w')
    (hstretch : w'.history = w.history ++ ⟨w.stores, .publish s.bus event payload⟩ :: rest)
    (hs : .subscribe s once ∈ acts w'.history)
    (hregistered : ∃ l ∈ (w.store s.bus).listenersOf s.event, l.id = s.id)
    (hquiet : publicationsOn s.bus rest = 0) :
    noticesOf s.id (⟨w.stores, .publish s.bus event payload⟩ :: rest) =
      if event = s.event then [payload] else [] := by
  rw [noticesOf, invocationsOf_publication h hsettles hstretch hs hquiet]
  by_cases hevent : event = s.event
  · subst hevent
    obtain ⟨l, hl, hid⟩ := hregistered
    rw [if_pos rfl, ← hid, filter_invokes_owes rfl (h.nodup_ids hstretch s.bus s.event) hl]
    rfl
  · rw [if_neg hevent, List.filter_eq_nil_iff.mpr, List.filterMap_nil]
    intro act hact hinvokes
    rw [Moment.owes, List.mem_append, List.mem_map, List.mem_singleton] at hact
    rcases hact with ⟨l, hl, rfl⟩ | rfl
    · rw [Act.invokes, decide_eq_true_eq] at hinvokes
      have hfound := (schedule.perm _ _).mem_iff.mp hl
      exact hevent (h.eq_of_listed hstretch hs hfound hinvokes).2.1.symm
    · exact absurd hinvokes Bool.false_ne_true

end

/-! ### Announcements -/

/-- A stretch in which someone makes these announcements on a bus, under their names. If nobody
else publishes on the bus, persistent subscribers that are left alone are told of those under
their name, in order, and of nothing else. -/
def Tells (bus : BusId) (announced : List (String × α)) (w w' : World σ α) : Prop :=
  ∃ stretch, Passes w stretch w' ∧ announced.length ≤ publicationsOn bus stretch ∧
    ∀ s : Subscription, s.bus = bus → Registered s w.stores → Undisturbed s stretch w' →
      publicationsOn bus stretch ≤ announced.length →
        Registered s w'.stores ∧
          noticesOf s.id stretch = (announced.filter (·.1 = s.event)).map Prod.snd

/-- Publishes announcements one after the other. -/
def announcing (bus : BusId) : List (String × α) → Script σ α
  | [] => .done
  | (event, payload) :: rest => .publish bus event payload fun _ ↦ announcing bus rest

section

variable {schedule : Schedule σ α} {bus : BusId} {u v w w' : World σ α}

theorem Tells.aside (bus : BusId) (w : World σ α) (memory : σ) (log : List LogEntry) :
    Tells bus [] w { w with memory, log } :=
  ⟨[], .aside memory log, Nat.le_refl _, fun _ _ hregistered _ _ ↦ ⟨hregistered, rfl⟩⟩

/-- Each part has its own announcements at least, so if there are no others in the whole there
are none in either part. -/
theorem Tells.trans {first second : List (String × α)} (hfirst : Tells bus first u v)
    (hsecond : Tells bus second v w) : Tells bus (first ++ second) u w := by
  obtain ⟨part, hv, hpart, htold⟩ := hfirst
  obtain ⟨other, hw, hother, htold'⟩ := hsecond
  refine ⟨part ++ other, hv.trans hw, ?_, fun s hbus hregistered hleft hown ↦ ?_⟩
  · rw [List.length_append, publicationsOn_append]
    exact Nat.add_le_add hpart hother
  · rw [List.length_append, publicationsOn_append] at hown
    obtain ⟨hstill, hnotices⟩ := htold s hbus hregistered (hleft.first hw) (by omega)
    obtain ⟨hend, hnotices'⟩ := htold' s hbus hstill hleft.second (by omega)
    refine ⟨hend, ?_⟩
    rw [noticesOf_append, hnotices, hnotices', List.filter_append, List.map_append]

/-- Whatever else is run announces nothing by itself. -/
theorem tells_of_run (h : w.Arises schedule) {depth : Nat} {script : Script σ α}
    {failure : Option Failure} (hrun : script.run schedule depth w = some (w', failure)) :
    Tells bus [] w w' := by
  have hsettles := (composes_settles schedule).of_run hrun
  obtain ⟨stretch, hstretch, hkeep⟩ := retains_of_run hrun
  refine ⟨stretch, hstretch, Nat.zero_le _, fun s hbus hregistered hleft hown ↦ ?_⟩
  have hs := hstretch.acts_subset (hregistered.subscribed h)
  have hquiet : publicationsOn s.bus stretch = 0 := hbus ▸ Nat.eq_zero_of_le_zero hown
  exact ⟨hkeep s hleft hregistered _ (mem_scenes_last _ w'),
    noticesOf_eq_nil (h.run hrun) hsettles hstretch.history hs hquiet⟩

/-- A publication is the first moment of its own stretch. -/
theorem exists_of_run_publish {depth : Nat} {event : String} {payload : α}
    {next : Nat → Script σ α} {failure : Option Failure}
    (hrun : (Script.publish bus event payload next).run schedule depth w = some (w', failure)) :
    ∃ v invoked rest,
      (Script.publish bus event payload fun _ ↦ .done).run schedule depth w = some (v, none) ∧
      v.history = w.history ++ ⟨w.stores, .publish bus event payload⟩ :: rest ∧
      (next invoked).run schedule depth v = some (w', failure) := by
  have hcall : ∃ call : Script σ α → World σ α → Ending σ α,
      (∀ script : Script σ α, script.run schedule depth = script.eval schedule call) ∧
        ∀ {script w w' failure}, call script w = some (w', failure) → Steps w w' := by
    cases depth with
    | zero => exact ⟨_, fun _ ↦ rfl, fun hnone ↦ absurd hnone (by simp)⟩
    | succ depth => exact ⟨_, fun _ ↦ rfl, steps_of_run⟩
  obtain ⟨call, hrunEval, hsteps⟩ := hcall
  rw [hrunEval, Script.eval] at hrun
  cases hpublish : Bus.publish schedule call bus event payload w with
  | none => simp [hpublish] at hrun
  | some result =>
    obtain ⟨invoked, v⟩ := result
    rw [hpublish] at hrun
    obtain ⟨-, delivered, hdeliver, rfl⟩ := exists_of_publish hpublish
    obtain ⟨rest, hrest⟩ := prefix_history_of_records Step.records
      (steps_of_deliver hsteps (publishes_beginPublication w bus event payload) hdeliver)
    refine ⟨_, invoked, rest ++ [⟨delivered.stores, .conclude w.history.length invoked⟩], ?_, ?_,
      by rw [hrunEval]; exact hrun⟩
    · rw [hrunEval, Script.eval, hpublish]
      rfl
    · change delivered.history ++ [_] = _
      rw [← hrest]
      change (w.history ++ [_]) ++ rest ++ [_] = _
      simp only [List.append_assoc, List.cons_append, List.nil_append]

theorem tells_of_publish (h : w.Arises schedule) {depth : Nat} {event : String} {payload : α}
    {rest : List (Moment σ α)}
    (hrun : (Script.publish bus event payload fun _ ↦ .done).run schedule depth w =
      some (v, none))
    (hhistory : v.history = w.history ++ ⟨w.stores, .publish bus event payload⟩ :: rest) :
    Tells bus [(event, payload)] w v := by
  have hsettles := (composes_settles schedule).of_run hrun
  have hcount : publicationsOn bus (⟨w.stores, .publish bus event payload⟩ :: rest) =
      publicationsOn bus rest + 1 :=
    List.countP_cons_of_pos (by simp [Act.publishesOn])
  obtain ⟨stretch, hstretch, hkeep⟩ := retains_of_run hrun
  obtain rfl := hstretch.unique hhistory
  refine ⟨_, hstretch, ?_, fun s hbus hregistered hleft hown ↦ ?_⟩
  · rw [hcount, List.length_singleton]
    omega
  · rw [hcount, List.length_singleton] at hown
    subst hbus
    have hs := hstretch.acts_subset (hregistered.subscribed h)
    have hfound : ∃ l ∈ (w.store s.bus).listenersOf s.event, l.id = s.id := by
      obtain ⟨l, hl, hid, -⟩ := hregistered
      exact ⟨l, hl, hid⟩
    refine ⟨hkeep s hleft hregistered _ (mem_scenes_last _ v), ?_⟩
    rw [noticesOf_publication (h.run hrun) hsettles hhistory hs hfound (by omega)]
    by_cases hevent : event = s.event
    · simp [hevent]
    · simp [hevent]

/-- Announcements that come to an end tell subscribers what they say. -/
theorem tells_of_announcing (h : w.Arises schedule) {depth : Nat}
    {announced : List (String × α)} {failure : Option Failure}
    (hrun : (announcing bus announced).run schedule depth w = some (w', failure)) :
    Tells bus announced w w' := by
  induction announced generalizing w with
  | nil => exact tells_of_run h hrun
  | cons first rest ih =>
    obtain ⟨event, payload⟩ := first
    obtain ⟨v, invoked, moments, hfirst, hhistory, hnext⟩ := exists_of_run_publish hrun
    exact (tells_of_publish h hfirst hhistory).trans (ih (h.run hfirst) hnext)

end

end AgentMarkup.Bus
