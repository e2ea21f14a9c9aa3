import AgentMarkup.Proofs.Bus.Registration
import Mathlib.Data.List.GetD
import Mathlib.Data.List.Induction

/-!
What the buses are meant to be: the number of handles of each bus and a list of live
subscriptions (`Roll`). Each act ends some of these and may begin one (`Act.ends`,
`Act.begins`), and so a history determines a roll (`rollOf`). The listeners of an event are those
of its live subscriptions, in the order of the roll (`Roll.Describes`), because every step
takes out the listeners whose subscriptions its act ends and no others (`Step.turns`).
-/

set_option autoImplicit false
set_option relaxedAutoImplicit false

namespace AgentMarkup.Bus

variable {σ α : Type}

/-! ### Rolls -/

/-- A live subscription, and whether it wants a single delivery. -/
structure Entry where
  subscription : Subscription
  once : Bool
deriving DecidableEq

/-- Whether an entry belongs to this event of this bus. -/
def Entry.under (bus : BusId) (event : String) (x : Entry) : Bool :=
  x.subscription.bus = bus && x.subscription.event = event

/-- The entry of a listener that stands under this event of this bus. -/
def Listener.entry (bus : BusId) (event : String) (l : Listener σ α) : Entry :=
  ⟨⟨bus, event, l.id⟩, l.once⟩

/-- The handles of each bus and the live subscriptions, in the order in which they were made. -/
structure Roll where
  handles : List Nat
  live : List Entry
deriving DecidableEq

namespace Roll

def held (roll : Roll) (bus : BusId) : Nat :=
  roll.handles.getD bus 0

end Roll

def Act.publishedOn? : Act α → Option BusId
  | .publish bus _ _ => some bus
  | .create _ | .clone _ | .drop _ | .subscribe _ _ | .unsubscribe _ _ _ | .cancel _ _
  | .invoke _ _ _ | .conclude _ _ | .clear _ _ | .count _ _ _ | .names _ _ => none

/-- The bus of the publication of this number. -/
def busOf? (past : List (Act α)) (publication : Nat) : Option BusId :=
  past[publication]?.bind Act.publishedOn?

namespace Act

/-- The handles after an act. A publication has one of its own until it is concluded. -/
def hands (past : List (Act α)) (handles : List Nat) : Act α → List Nat
  | .create _ => handles ++ [1]
  | .clone bus | .publish bus _ _ => handles.modify bus (· + 1)
  | .drop bus => handles.modify bus (· - 1)
  | .conclude publication _ =>
    match busOf? past publication with
    | some bus => handles.modify bus (· - 1)
    | none => handles
  | .subscribe _ _ | .unsubscribe _ _ _ | .cancel _ _ | .invoke _ _ _ | .clear _ _
  | .count _ _ _ | .names _ _ => handles

/-- Whether an act ends a live subscription. -/
def ends (past : List (Act α)) (roll : Roll) (x : Entry) : Act α → Bool
  | .drop bus => x.subscription.bus = bus && roll.held bus ≤ 1
  | .unsubscribe bus s _ => x.subscription = ⟨bus, s.event, s.id⟩
  | .cancel s _ => x.subscription = s && roll.held s.bus ≠ 0
  | .publish bus event _ => x.under bus event && x.once
  | .conclude publication _ =>
    busOf? past publication = some x.subscription.bus && roll.held x.subscription.bus ≤ 1
  | .clear bus event =>
    x.subscription.bus = bus && (event = none || event = some x.subscription.event)
  | .create _ | .clone _ | .subscribe _ _ | .invoke _ _ _ | .count _ _ _ | .names _ _ => false

/-- The subscription that an act begins; there is none on a bus that does not exist. -/
def begins (roll : Roll) : Act α → List Entry
  | .subscribe s once => if s.bus < roll.handles.length then [⟨s, once⟩] else []
  | .create _ | .clone _ | .drop _ | .unsubscribe _ _ _ | .cancel _ _ | .publish _ _ _
  | .invoke _ _ _ | .conclude _ _ | .clear _ _ | .count _ _ _ | .names _ _ => []

end Act

/-- The roll after an act, given what was done before it. -/
def Roll.enter (roll : Roll) (past : List (Act α)) (act : Act α) : Roll where
  handles := act.hands past roll.handles
  live := roll.live.filter (fun x ↦ !act.ends past roll x) ++ act.begins roll

def Roll.enterAll (roll : Roll) (past : List (Act α)) : List (Act α) → Roll
  | [] => roll
  | act :: rest => (roll.enter past act).enterAll (past ++ [act]) rest

/-- The roll after all that was done since there were no buses. -/
def rollOf (past : List (Act α)) : Roll :=
  Roll.enterAll ⟨[], []⟩ [] past

theorem enterAll_append (roll : Roll) (past first second : List (Act α)) :
    roll.enterAll past (first ++ second) =
      (roll.enterAll past first).enterAll (past ++ first) second := by
  induction first generalizing roll past with
  | nil => rw [List.nil_append, List.append_nil, Roll.enterAll]
  | cons act rest ih =>
    rw [List.cons_append, Roll.enterAll, ih, Roll.enterAll, List.append_assoc,
      List.singleton_append]

theorem rollOf_append_singleton (past : List (Act α)) (act : Act α) :
    rollOf (past ++ [act]) = (rollOf past).enter past act :=
  enterAll_append _ _ _ _

/-- The live subscriptions are among those made, in the same order. -/
theorem sublist_live (past : List (Act α)) :
    ((rollOf past).live.map (·.subscription.id)).Sublist (past.filterMap Act.subscribed?) := by
  induction past using List.reverseRecOn with
  | nil => exact List.Sublist.refl _
  | append_singleton past act ih =>
    rw [rollOf_append_singleton, Roll.enter, List.map_append, List.filterMap_append]
    refine ((List.filter_sublist.map _).trans ih).append ?_
    cases act with
    | subscribe s once =>
      rw [Act.begins]
      split_ifs
      · exact List.Sublist.refl _
      · exact List.nil_sublist _
    | create | clone | drop | unsubscribe | cancel | publish | invoke | conclude | clear | count
    | names => exact List.nil_sublist _

/-- Whether the buses after an act are those before it, but without the listeners whose
subscriptions it ends and with one for the subscription that it begins. -/
structure Act.Turns (past : List (Act α)) (roll : Roll) (act : Act α)
    (stores next : List (Store σ α)) : Prop where
  handles : next.map Store.handles = act.hands past (stores.map Store.handles)
  listeners : ∀ bus event, ∃ added : List (Listener σ α),
    (storeOf next bus).listenersOf event =
        ((storeOf stores bus).listenersOf event).filter
          (fun l ↦ !act.ends past roll (l.entry bus event)) ++ added ∧
      added.map (Listener.entry bus event) = (act.begins roll).filter (Entry.under bus event)

namespace Act.Turns

variable {past : List (Act α)} {roll : Roll} {act : Act α} {stores : List (Store σ α)}

end Act.Turns

/-! ### Rolls describe the buses -/

/-- Whether the buses have the handles and the listeners of a roll. -/
structure Roll.Describes (roll : Roll) (stores : List (Store σ α)) : Prop where
  handles : roll.handles = stores.map Store.handles
  live : ∀ bus event, ((storeOf stores bus).listenersOf event).map (Listener.entry bus event) =
    roll.live.filter (Entry.under bus event)

namespace Roll.Describes

variable {roll : Roll} {stores next : List (Store σ α)}

theorem held_eq (h : roll.Describes stores) (bus : BusId) :
    roll.held bus = (storeOf stores bus).handles := by
  rw [Roll.held, h.handles]
  exact List.getD_map stores ⟨.empty, 0⟩ Store.handles

theorem enter (h : roll.Describes stores) {past : List (Act α)} {act : Act α}
    (hturns : act.Turns past roll stores next) : (roll.enter past act).Describes next where
  handles := by rw [hturns.handles, Roll.enter, h.handles]
  live bus event := by
    obtain ⟨added, hlisteners, hadded⟩ := hturns.listeners bus event
    rw [hlisteners, List.map_append, hadded, Roll.enter, List.filter_append]
    congr 1
    rw [List.filter_comm, ← h.live, List.filter_map]
    rfl

theorem mem_live_iff (h : roll.Describes stores) {x : Entry} : x ∈ roll.live ↔
    ∃ l ∈ (storeOf stores x.subscription.bus).listenersOf x.subscription.event,
      l.entry x.subscription.bus x.subscription.event = x := by
  rw [← List.mem_map, h.live, List.mem_filter]
  exact (and_iff_left (by simp [Entry.under])).symm

end Roll.Describes

section

variable {w next : World σ α} {past : List (Act α)} {roll : Roll}

end

/-! ### Whole executions -/

theorem describes_empty (memory : σ) :
    (rollOf (acts (World.empty memory : World σ α).history)).Describes
      (World.empty memory : World σ α).stores where
  handles := rfl
  live _ _ := rfl

def Store.Tidy (s : Store σ α) : Prop :=
  ∀ event, s.listeners.get? event ≠ some []

namespace Store.Tidy

theorem empty (handles : Nat) : (⟨.empty, handles⟩ : Store σ α).Tidy :=
  fun _ ↦ (Option.some_ne_none _).symm

variable {s : Store σ α}

theorem setListeners (h : s.Tidy) (event : String) (ls : List (Listener σ α)) :
    (s.setListeners event ls).Tidy := by
  intro e
  unfold Store.setListeners
  cases ls with
  | nil =>
    rw [List.isEmpty_nil, if_pos rfl, Table.get?_erase]
    split_ifs
    · exact (Option.some_ne_none _).symm
    · exact h e
  | cons l rest =>
    rw [List.isEmpty_cons, if_neg Bool.false_ne_true, Table.get?_insert]
    split_ifs
    · simp
    · exact h e

theorem remove (h : s.Tidy) (event : String) (id : Nat) : (s.remove event id).Tidy := by
  unfold Store.remove
  split_ifs
  · exact h.setListeners event _
  · exact h

theorem clear (h : s.Tidy) (event : Option String) : (s.clear event).Tidy := by
  intro e
  cases event with
  | none => exact empty s.handles e
  | some event =>
    unfold Store.clear
    rw [Table.get?_erase]
    split_ifs
    · exact (Option.some_ne_none _).symm
    · exact h e

theorem release (h : s.Tidy) : s.release.Tidy := by
  unfold Store.release
  split_ifs
  · exact empty 0
  · exact h

/-- Events with listeners are those that have a row. -/
theorem mem_names_iff (h : s.Tidy) {event : String} : event ∈ s.names ↔ 0 < s.count event := by
  rw [Store.names, Table.mem_keys_iff, Store.count, Store.listenersOf, List.length_pos_iff]
  cases hrow : s.listeners.get? event with
  | none => simp
  | some ls =>
    have hls : ls ≠ [] := fun hnil ↦ h event (hnil ▸ hrow)
    simpa using hls

/-- A bus is determined by its handles and by the listeners of each event. -/
theorem ext {t : Store σ α} (hs : s.Tidy) (ht : t.Tidy) (hhandles : s.handles = t.handles)
    (hlisteners : ∀ event, s.listenersOf event = t.listenersOf event) : s = t := by
  have htables : s.listeners = t.listeners := by
    refine Table.ext_get? fun event ↦ ?_
    have hsame := hlisteners event
    unfold Store.listenersOf at hsame
    cases hrow : s.listeners.get? event with
    | none =>
      cases hother : t.listeners.get? event with
      | none => rfl
      | some ls =>
        rw [hrow, hother] at hsame
        exact absurd (hother.trans (congrArg some hsame.symm)) (ht event)
    | some ls =>
      cases hother : t.listeners.get? event with
      | none =>
        rw [hrow, hother] at hsame
        exact absurd (hrow.trans (congrArg some hsame)) (hs event)
      | some others =>
        rw [hrow, hother] at hsame
        exact congrArg some hsame
  obtain ⟨listeners, handles⟩ := s
  obtain ⟨others, handles'⟩ := t
  exact congrArg₂ Store.mk htables hhandles

end Store.Tidy

/-- Whether no bus keeps an event without listeners. -/
def Tidy (stores : List (Store σ α)) : Prop :=
  ∀ bus, (storeOf stores bus).Tidy

theorem Tidy.modify {stores : List (Store σ α)} (h : Tidy stores) {f : Store σ α → Store σ α}
    (hf : ∀ {s : Store σ α}, s.Tidy → (f s).Tidy) (bus : BusId) :
    Tidy (stores.modify bus f) := by
  intro b
  rw [storeOf_modify]
  split_ifs
  · exact hf (h b)
  · exact h b

theorem Operation.tidy {w next : World σ α} (hoperation : Operation w next)
    (h : Tidy w.stores) : Tidy next.stores := by
  cases hoperation with
  | aside | count | names => exact h
  | create =>
    intro bus event
    change (storeOf (w.stores ++ [.fresh]) bus).listeners.get? event ≠ _
    rw [listeners_append_fresh]
    exact h bus event
  | clone bus => exact h.modify (f := Store.acquire) (fun hs ↦ hs) bus
  | drop bus => exact h.modify (fun hs ↦ hs.release) bus
  | subscribe bus event once callback => exact h.modify (fun hs ↦ hs.setListeners event _) bus
  | unsubscribe bus s => exact h.modify (fun hs ↦ hs.remove s.event s.id) bus
  | cancel s =>
    unfold World.cancel
    split_ifs
    · exact h
    · exact h.modify (fun hs ↦ hs.remove s.event s.id) s.bus
  | clear bus event => exact h.modify (fun hs ↦ hs.clear event) bus

end AgentMarkup.Bus
