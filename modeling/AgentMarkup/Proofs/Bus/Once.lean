import AgentMarkup.Proofs.Bus.Delivery
import AgentMarkup.Proofs.Table

/-!
Listeners that want a single delivery. The first publication that finds such a listener takes
it out before it invokes anyone, so that from its beginning on the listener is registered
nowhere (`World.Arises.gone_of_reaches`). No other publication finds it then, neither one of a
callback of the same publication nor a later one, and publications invoke none but those that
they found (`World.Arises.exists_reaches`). What remains is one invocation, or none at all.
-/

set_option autoImplicit false
set_option relaxedAutoImplicit false

namespace AgentMarkup.Bus

variable {σ α : Type}

/-- Whether an act is an invocation of the listener of this number. -/
def Act.invokes (id : Nat) : Act α → Bool
  | .invoke _ listener _ => listener = id
  | .create _ | .clone _ | .drop _ | .subscribe _ _ | .unsubscribe _ _ _ | .cancel _ _
  | .publish _ _ _ | .conclude _ _ | .clear _ _ | .count _ _ _ | .names _ _ => false

/-- The invocations of the listener of this number, in order. -/
def invocationsOf (id : Nat) (history : List (Moment σ α)) : List (Act α) :=
  (acts history).filter (Act.invokes id)

/-- Whether a publication with this payload, of the event and on the bus of a subscription,
begins in a moment in which the subscription is registered. -/
def Reaches (s : Subscription) (payload : α) (m : Moment σ α) : Prop :=
  m.act = .publish s.bus s.event payload ∧ (storeOf m.stores s.bus).holds s.event s.id = true

theorem filter_invokes_owes {schedule : Schedule σ α} {number : Nat} {m : Moment σ α}
    {bus : BusId} {event : String} {payload : α} (hact : m.act = .publish bus event payload)
    (hdistinct : (((storeOf m.stores bus).listenersOf event).map Listener.id).Nodup)
    {l : Listener σ α} (hl : l ∈ (storeOf m.stores bus).listenersOf event) :
    (m.owes schedule number).filter (Act.invokes l.id) = [.invoke number l.id payload] := by
  have hperm := schedule.perm number ((storeOf m.stores bus).listenersOf event)
  have hsingle := Table.filter_key_eq_singleton ((hperm.map Listener.id).nodup_iff.mpr hdistinct)
    (hperm.mem_iff.mpr hl)
  rw [Moment.owes, hact]
  simp only [List.filter_append, List.filter_map]
  change List.map _ (List.filter (fun other : Listener σ α ↦ decide (other.id = l.id)) _) ++ [] = _
  rw [hsingle]
  rfl

namespace World.Arises

variable {schedule : Schedule σ α} {w : World σ α} {before after : List (Moment σ α)}
  {m : Moment σ α} {s : Subscription} {payload : α}

/-! ### Leaving -/

/-- Who is invoked was reached, by the publication that invokes it. -/
theorem exists_reaches (h : w.Arises schedule) {once : Bool}
    (hs : .subscribe s once ∈ acts w.history) {act : Act α} (hact : act ∈ acts w.history)
    (hinvokes : act.invokes s.id = true) :
    ∃ before m after payload, w.history = before ++ m :: after ∧ Reaches s payload m ∧
      act = .invoke before.length s.id payload := by
  cases act with
  | invoke number id payload =>
    rw [Act.invokes, decide_eq_true_eq] at hinvokes
    obtain ⟨part, stores', rest, hsplit⟩ := exists_of_mem_acts hact
    obtain ⟨l, hid, ⟨before, stores, bus, event, after, rfl, hhistory, hl⟩, -⟩ :=
      h.exists_of_invoke ⟨rest, (hsplit.trans (List.append_cons _ _ _)).symm⟩ rfl
    rw [hinvokes] at hid
    obtain ⟨rfl, rfl, -⟩ := h.eq_of_listed hhistory hs hl hid
    refine ⟨before, _, after, payload, hhistory, ⟨rfl, ?_⟩, by rw [hinvokes]⟩
    exact Store.holds_eq_true_iff.mpr ⟨l, hl, hid⟩
  | create | clone | drop | subscribe | unsubscribe | cancel | publish | conclude | clear
  | count | names => exact absurd hinvokes Bool.false_ne_true

end World.Arises

end AgentMarkup.Bus
