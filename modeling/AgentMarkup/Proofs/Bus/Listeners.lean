import AgentMarkup.Bus.Basic
import AgentMarkup.Proofs.Table

/-!
What the operations on a store do to the listeners of an event. Subscribing appends one
listener to its event (`listenersOf_add`); every other operation only takes listeners away
(`Thins`), from the event that it names or, with the last handle, from all of them.
-/

set_option autoImplicit false
set_option relaxedAutoImplicit false

namespace AgentMarkup.Bus

variable {σ α : Type}

namespace Store

theorem listenersOf_setListeners (s : Store σ α) (event : String) (ls : List (Listener σ α))
    (e : String) : (s.setListeners event ls).listenersOf e =
      if e = event then ls else s.listenersOf e := by
  unfold setListeners listenersOf
  cases ls with
  | nil =>
    rw [List.isEmpty_nil, if_pos rfl, Table.get?_erase]
    split_ifs <;> rfl
  | cons l rest =>
    rw [List.isEmpty_cons, if_neg Bool.false_ne_true, Table.get?_insert]
    split_ifs <;> rfl

theorem listenersOf_add (s : Store σ α) (event : String) (l : Listener σ α) (e : String) :
    (s.add event l).listenersOf e =
      if e = event then s.listenersOf event ++ [l] else s.listenersOf e :=
  listenersOf_setListeners s event _ e

theorem listenersOf_dropOnce (s : Store σ α) (event e : String) :
    (s.dropOnce event).listenersOf e =
      if e = event then (s.listenersOf event).filter (!·.once) else s.listenersOf e :=
  listenersOf_setListeners s event _ e

theorem listenersOf_remove (s : Store σ α) (event : String) (id : Nat) (e : String) :
    (s.remove event id).listenersOf e =
      if e = event then (s.listenersOf event).filter (·.id ≠ id) else s.listenersOf e := by
  unfold remove
  split_ifs with hholds he he
  · rw [listenersOf_setListeners, if_pos he]
  · rw [listenersOf_setListeners, if_neg he]
  · subst he
    have hnone : ∀ l ∈ s.listenersOf e, l.id ≠ id := by simpa [holds] using hholds
    exact (List.filter_eq_self.mpr fun l hl ↦ by simpa using hnone l hl).symm
  · rfl

theorem listenersOf_clear (s : Store σ α) (event : Option String) (e : String) :
    (s.clear event).listenersOf e =
      if event = none ∨ event = some e then [] else s.listenersOf e := by
  cases event with
  | none => rfl
  | some event =>
    unfold clear listenersOf
    rw [Table.get?_erase]
    by_cases he : e = event
    · simp [he]
    · simp [he, Ne.symm he]

theorem listenersOf_release (s : Store σ α) (e : String) :
    s.release.listenersOf e = if s.handles ≤ 1 then [] else s.listenersOf e := by
  unfold release
  split_ifs <;> rfl

theorem holds_eq_true_iff {s : Store σ α} {event : String} {id : Nat} :
    s.holds event id = true ↔ ∃ l ∈ s.listenersOf event, l.id = id := by
  simp [holds]

theorem handles_clear (s : Store σ α) (event : Option String) :
    (s.clear event).handles = s.handles := by
  cases event <;> rfl

end Store

/-! ### Operations that only take away -/

/-- Whether one list of stores has, for each bus and event, no listeners but some of those of
another, in the same order. -/
def Thins (after before : List (Store σ α)) : Prop :=
  ∀ bus event, ((storeOf after bus).listenersOf event).Sublist
    ((storeOf before bus).listenersOf event)

theorem Thins.refl (stores : List (Store σ α)) : Thins stores stores :=
  fun _ _ ↦ List.Sublist.refl _

theorem storeOf_modify (stores : List (Store σ α)) (bus : BusId) (f : Store σ α → Store σ α)
    (b : BusId) : storeOf (stores.modify bus f) b =
      if b = bus ∧ b < stores.length then f (storeOf stores b) else storeOf stores b := by
  unfold storeOf
  rw [List.getD_eq_getElem?_getD, List.getD_eq_getElem?_getD, List.getElem?_modify]
  by_cases hb : b < stores.length
  · rw [List.getElem?_eq_getElem hb]
    by_cases heq : b = bus
    · subst heq
      simp [hb]
    · simp [heq, Ne.symm heq]
  · rw [List.getElem?_eq_none (Nat.le_of_not_lt hb)]
    simp [hb]

/-- A bus that does not exist has no listeners. -/
theorem storeOf_of_length_le {stores : List (Store σ α)} {bus : BusId}
    (h : stores.length ≤ bus) : storeOf stores bus = ⟨.empty, 0⟩ := by
  rw [storeOf, List.getD_eq_getElem?_getD, List.getElem?_eq_none h]
  rfl

/-- A new bus has no listeners either. -/
theorem listeners_append_fresh (stores : List (Store σ α)) (bus : BusId) :
    (storeOf (stores ++ [.fresh]) bus).listeners = (storeOf stores bus).listeners := by
  unfold storeOf
  rw [List.getD_eq_getElem?_getD, List.getD_eq_getElem?_getD, List.getElem?_append]
  split_ifs with hbus
  · rfl
  · rw [List.getElem?_eq_none (Nat.le_of_not_lt hbus)]
    cases hindex : bus - stores.length <;> rfl

theorem thins_modify {f : Store σ α → Store σ α}
    (hf : ∀ s event, ((f s).listenersOf event).Sublist (s.listenersOf event))
    (stores : List (Store σ α)) (bus : BusId) : Thins (stores.modify bus f) stores := by
  intro b event
  rw [storeOf_modify]
  split_ifs
  · exact hf _ event
  · exact List.Sublist.refl _

theorem thins_append_fresh (stores : List (Store σ α)) : Thins (stores ++ [.fresh]) stores := by
  intro bus event
  rw [Store.listenersOf, listeners_append_fresh]
  exact List.Sublist.refl _

namespace Store

theorem sublist_remove (s : Store σ α) (event : String) (id : Nat) (e : String) :
    ((s.remove event id).listenersOf e).Sublist (s.listenersOf e) := by
  rw [listenersOf_remove]
  split_ifs with he
  · exact he ▸ List.filter_sublist
  · exact List.Sublist.refl _

theorem sublist_clear (s : Store σ α) (event : Option String) (e : String) :
    ((s.clear event).listenersOf e).Sublist (s.listenersOf e) := by
  rw [listenersOf_clear]
  split_ifs
  · exact List.nil_sublist _
  · exact List.Sublist.refl _

theorem sublist_release (s : Store σ α) (e : String) :
    ((s.release).listenersOf e).Sublist (s.listenersOf e) := by
  rw [listenersOf_release]
  split_ifs
  · exact List.nil_sublist _
  · exact List.Sublist.refl _

end Store

end AgentMarkup.Bus
