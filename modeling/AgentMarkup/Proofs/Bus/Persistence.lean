import AgentMarkup.Proofs.Bus.Registration

/-!
Persistent listeners stay. As long as the bus has a handle and nobody unsubscribes, cancels or
clears a listener that does not want a single delivery, it is registered at every moment of an
execution (`retains_of_run`): subscriptions append to it, publications take out others, and to
conclude a publication only gives back the handle that was taken at its beginning.
-/

set_option autoImplicit false
set_option relaxedAutoImplicit false

namespace AgentMarkup.Bus

variable {σ α : Type}

/-! ### Stretches of an execution -/

/-- The buses as each moment of a stretch finds them, and as the stretch leaves them. -/
def scenes (stretch : List (Moment σ α)) (w' : World σ α) : List (List (Store σ α)) :=
  stretch.map Moment.stores ++ [w'.stores]

/-- An execution leads from one world to another through these moments. -/
structure Passes (w : World σ α) (stretch : List (Moment σ α)) (w' : World σ α) : Prop where
  history : w'.history = w.history ++ stretch
  first : w.stores ∈ scenes stretch w'

theorem mem_scenes_last (stretch : List (Moment σ α)) (w' : World σ α) :
    w'.stores ∈ scenes stretch w' :=
  List.mem_append_right _ List.mem_cons_self

namespace Passes

variable {u v w w' : World σ α} {first second stretch : List (Moment σ α)}

theorem refl (w : World σ α) : Passes w [] w :=
  ⟨(List.append_nil _).symm, List.mem_cons_self⟩

theorem aside (memory : σ) (log : List LogEntry) : Passes w [] { w with memory, log } :=
  ⟨(List.append_nil _).symm, List.mem_cons_self⟩

theorem single {act : Act α} (h : w'.history = w.history ++ [⟨w.stores, act⟩]) :
    Passes w [⟨w.stores, act⟩] w' :=
  ⟨h, List.mem_cons_self⟩

theorem scenes_first_subset (h : Passes v second w) :
    scenes first v ⊆ scenes (first ++ second) w := by
  intro stores hstores
  rw [scenes, List.map_append, List.append_assoc]
  rcases List.mem_append.mp hstores with hearly | hlast
  · exact List.mem_append_left _ hearly
  · exact List.mem_append_right _ (List.mem_singleton.mp hlast ▸ h.first)

theorem scenes_second_subset (first second : List (Moment σ α)) (w : World σ α) :
    scenes second w ⊆ scenes (first ++ second) w := by
  rw [scenes, scenes, List.map_append, List.append_assoc]
  exact List.subset_append_right _ _

theorem trans (hfirst : Passes u first v) (hsecond : Passes v second w) :
    Passes u (first ++ second) w := by
  refine ⟨?_, hsecond.scenes_first_subset hfirst.first⟩
  rw [hsecond.history, hfirst.history, List.append_assoc]

theorem acts_subset (h : Passes w stretch w') : acts w.history ⊆ acts w'.history :=
  Bus.acts_subset (h.history ▸ List.prefix_append _ _)

theorem unique {others : List (Moment σ α)} (h : Passes w stretch w')
    (hhistory : w'.history = w.history ++ others) : others = stretch :=
  List.append_cancel_left (hhistory.symm.trans h.history)

end Passes

/-! ### Staying registered -/

/-- Whether an act asks for a subscription to be taken away. -/
def Act.TakesAway (s : Subscription) : Act α → Prop
  | .unsubscribe bus other _ => bus = s.bus ∧ other.event = s.event ∧ other.id = s.id
  | .cancel other _ => other = s
  | .clear bus event => bus = s.bus ∧ (event = none ∨ event = some s.event)
  | .create _ | .clone _ | .drop _ | .subscribe _ _ | .publish _ _ _ | .invoke _ _ _
  | .conclude _ _ | .count _ _ _ | .names _ _ => False

instance (s : Subscription) : DecidablePred (Act.TakesAway s : Act α → Prop)
  | .unsubscribe _ _ _ => inferInstanceAs (Decidable (_ ∧ _ ∧ _))
  | .cancel _ _ => inferInstanceAs (Decidable (_ = _))
  | .clear _ _ => inferInstanceAs (Decidable (_ ∧ (_ ∨ _)))
  | .create _ | .clone _ | .drop _ | .subscribe _ _ | .publish _ _ _ | .invoke _ _ _
  | .conclude _ _ | .count _ _ _ | .names _ _ => isFalse id

/-- Whether a stretch leaves a subscription alone: nobody asks for it to be taken away, and its
bus is in use all the time. -/
structure Undisturbed (s : Subscription) (stretch : List (Moment σ α)) (w' : World σ α) :
    Prop where
  kept : ∀ act ∈ acts stretch, ¬act.TakesAway s
  alive : ∀ stores ∈ scenes stretch w', (storeOf stores s.bus).handles ≠ 0

theorem Undisturbed.first {s : Subscription} {first second : List (Moment σ α)}
    {v w : World σ α} (h : Undisturbed s (first ++ second) w) (hv : Passes v second w) :
    Undisturbed s first v where
  kept act hact := h.kept act (acts_append first second ▸ List.mem_append_left _ hact)
  alive stores hstores := h.alive stores (hv.scenes_first_subset hstores)

theorem Undisturbed.second {s : Subscription} {first second : List (Moment σ α)}
    {w : World σ α} (h : Undisturbed s (first ++ second) w) : Undisturbed s second w where
  kept act hact := h.kept act (acts_append first second ▸ List.mem_append_right _ hact)
  alive stores hstores := h.alive stores (Passes.scenes_second_subset first second w hstores)

/-- Whether the listener of a subscription is there, and wants more than one delivery. -/
def Registered (s : Subscription) (stores : List (Store σ α)) : Prop :=
  ∃ l ∈ (storeOf stores s.bus).listenersOf s.event, l.id = s.id ∧ l.once = false

instance (s : Subscription) (stores : List (Store σ α)) : Decidable (Registered s stores) :=
  inferInstanceAs (Decidable (∃ l ∈ (storeOf stores s.bus).listenersOf s.event, _ ∧ _))

theorem Registered.lt_length {s : Subscription} {stores : List (Store σ α)}
    (h : Registered s stores) : s.bus < stores.length := by
  obtain ⟨l, hl, -⟩ := h
  by_contra hlate
  rw [storeOf_of_length_le (Nat.le_of_not_lt hlate)] at hl
  exact absurd hl List.not_mem_nil

/-- Who is registered has subscribed. -/
theorem Registered.subscribed {schedule : Schedule σ α} {s : Subscription} {w : World σ α}
    (h : Registered s w.stores) (hw : w.Arises schedule) : .subscribe s false ∈ acts w.history := by
  obtain ⟨l, hl, hid, honce⟩ := h
  have hlisted := hw.sound.listed hl
  rwa [hid, honce] at hlisted

/-- A change to one bus keeps a listener of another, and one of its own that it does not touch. -/
theorem Registered.modify {s : Subscription} {stores : List (Store σ α)}
    (h : Registered s stores) {bus : BusId} {f : Store σ α → Store σ α}
    (hf : s.bus = bus → ∀ l ∈ (storeOf stores bus).listenersOf s.event, l.id = s.id →
      l.once = false → l ∈ (f (storeOf stores bus)).listenersOf s.event) :
    Registered s (stores.modify bus f) := by
  have hlength := h.lt_length
  obtain ⟨l, hl, hid, honce⟩ := h
  refine ⟨l, ?_, hid, honce⟩
  rw [storeOf_modify]
  by_cases hbus : s.bus = bus
  · subst hbus
    rw [if_pos ⟨rfl, hlength⟩]
    exact hf rfl l hl hid honce
  · rw [if_neg fun hsame ↦ hbus hsame.1]
    exact hl

/-- Whether a stretch between two worlds keeps every subscription that it leaves alone. -/
def Retains (w w' : World σ α) : Prop :=
  ∃ stretch, Passes w stretch w' ∧ ∀ s, Undisturbed s stretch w' → Registered s w.stores →
    ∀ stores ∈ scenes stretch w', Registered s stores

namespace Retains

variable {u v w w' : World σ α}

theorem aside (w : World σ α) (memory : σ) (log : List LogEntry) :
    Retains w { w with memory, log } := by
  refine ⟨[], Passes.aside memory log, fun s _ hregistered stores hstores ↦ ?_⟩
  rw [List.mem_singleton.mp hstores]
  exact hregistered

theorem trans (hfirst : Retains u v) (hsecond : Retains v w) : Retains u w := by
  obtain ⟨first, hv, hkeep⟩ := hfirst
  obtain ⟨second, hw, hkeep'⟩ := hsecond
  refine ⟨first ++ second, hv.trans hw, fun s hleft hregistered stores hstores ↦ ?_⟩
  have hearly := hkeep s (hleft.first hw) hregistered
  have hlate := hkeep' s hleft.second (hearly v.stores (mem_scenes_last first v))
  rw [scenes, List.map_append, List.append_assoc] at hstores
  rcases List.mem_append.mp hstores with hstores | hstores
  · exact hearly stores (List.mem_append_left _ hstores)
  · exact hlate stores hstores

/-- A single act keeps the subscriptions that the buses after it have. -/
theorem single {act : Act α} (hhistory : w'.history = w.history ++ [⟨w.stores, act⟩])
    (hkeep : ∀ s, ¬act.TakesAway s → (storeOf w'.stores s.bus).handles ≠ 0 →
      Registered s w.stores → Registered s w'.stores) : Retains w w' := by
  refine ⟨_, Passes.single hhistory, fun s hleft hregistered stores hstores ↦ ?_⟩
  rcases List.mem_cons.mp hstores with rfl | hlast
  · exact hregistered
  · rw [List.mem_singleton.mp hlast]
    exact hkeep s (hleft.kept act List.mem_cons_self)
      (hleft.alive _ (mem_scenes_last _ w')) hregistered

theorem record (w : World σ α) (act : Act α) : Retains w (w.record act) :=
  single rfl fun _ _ _ hregistered ↦ hregistered

theorem create (w : World σ α) : Retains w w.create.2 := by
  refine single rfl fun s _ _ ⟨l, hl, hrest⟩ ↦ ⟨l, ?_, hrest⟩
  change l ∈ (storeOf (w.stores ++ [.fresh]) s.bus).listenersOf s.event
  rwa [Store.listenersOf, listeners_append_fresh]

theorem clone (w : World σ α) (bus : BusId) : Retains w (w.clone bus) :=
  single rfl fun _ _ _ hregistered ↦ hregistered.modify fun _ _ hl _ _ ↦ hl

/-- Giving up a handle that is not the last one leaves the listeners. -/
theorem registered_release {s : Subscription} {stores : List (Store σ α)}
    (h : Registered s stores) {bus : BusId}
    (halive : (storeOf (stores.modify bus Store.release) s.bus).handles ≠ 0) :
    Registered s (stores.modify bus Store.release) := by
  have hlength := h.lt_length
  refine h.modify fun hbus l hl _ _ ↦ ?_
  subst hbus
  rw [storeOf_modify, if_pos ⟨rfl, hlength⟩] at halive
  unfold Store.release at halive ⊢
  split_ifs at halive ⊢ with hhandles
  · exact absurd rfl halive
  · exact hl

theorem drop (w : World σ α) (bus : BusId) : Retains w (w.drop bus) :=
  single rfl fun _ _ halive hregistered ↦ registered_release hregistered halive

theorem subscribe (w : World σ α) (bus : BusId) (event : String) (once : Bool)
    (callback : α → Script σ α) : Retains w (w.subscribe bus event once callback).2 := by
  refine single rfl fun s _ _ ⟨l, hl, hrest⟩ ↦ ⟨l, ?_, hrest⟩
  change l ∈ ((w.subscribe bus event once callback).2.store s.bus).listenersOf s.event
  rw [listenersOf_subscribe]
  split_ifs
  · exact List.mem_append_left _ hl
  · exact hl

/-- Removing another listener leaves this one. -/
theorem mem_listenersOf_remove {store : Store σ α} {event e : String} {id : Nat}
    {l : Listener σ α} (hl : l ∈ store.listenersOf e) (hother : e = event → l.id ≠ id) :
    l ∈ (store.remove event id).listenersOf e := by
  rw [Store.listenersOf_remove]
  split_ifs with he
  · exact List.mem_filter.mpr ⟨he ▸ hl, by simpa using hother he⟩
  · exact hl

theorem unsubscribe (w : World σ α) (bus : BusId) (other : Subscription) :
    Retains w (w.unsubscribe bus other).2 := by
  refine single rfl fun s hkept _ hregistered ↦ hregistered.modify fun hbus l hl hid _ ↦ ?_
  refine mem_listenersOf_remove hl fun hevent hsame ↦ hkept ?_
  exact ⟨hbus.symm, hevent.symm, hsame.symm.trans hid⟩

theorem cancel (w : World σ α) (other : Subscription) : Retains w (w.cancel other).2 := by
  unfold World.cancel
  split_ifs
  · exact record w _
  · refine single rfl fun s hkept _ hregistered ↦ hregistered.modify fun hbus l hl hid _ ↦ ?_
    refine mem_listenersOf_remove hl fun hevent hsame ↦ hkept ?_
    obtain ⟨bus, event, id⟩ := other
    obtain ⟨bus', event', id'⟩ := s
    simp only at hbus hevent hsame hid
    simp only [Act.TakesAway, Subscription.mk.injEq]
    exact ⟨hbus.symm, hevent.symm, hsame.symm.trans hid⟩

theorem clear (w : World σ α) (bus : BusId) (event : Option String) :
    Retains w (w.clear bus event) := by
  refine single rfl fun s hkept _ hregistered ↦ hregistered.modify fun hbus l hl _ _ ↦ ?_
  rw [Store.listenersOf_clear, if_neg fun hevent ↦ hkept ⟨hbus.symm, hevent⟩]
  exact hl

theorem beginPublication (w : World σ α) (bus : BusId) (event : String) (payload : α) :
    Retains w (w.beginPublication bus event payload) := by
  refine single rfl fun s _ _ hregistered ↦ hregistered.modify fun _ l hl _ honce ↦ ?_
  change l ∈ ((storeOf w.stores bus).dropOnce event).listenersOf s.event
  rw [Store.listenersOf_dropOnce]
  split_ifs with hevent
  · exact List.mem_filter.mpr ⟨hevent ▸ hl, by rw [honce]; rfl⟩
  · exact hl

theorem concludePublication (w : World σ α) (bus : BusId) (publication invoked : Nat) :
    Retains w (w.concludePublication bus publication invoked) :=
  single rfl fun _ _ halive hregistered ↦ registered_release hregistered halive

end Retains

/-! ### Runs -/

theorem retains_of_step {w w' : World σ α} (h : Step w w') : Retains w w' := by
  cases h with
  | operation h =>
    cases h with
    | aside memory log => exact .aside w memory log
    | create => exact .create w
    | clone bus => exact .clone w bus
    | drop bus => exact .drop w bus
    | subscribe bus event once callback => exact .subscribe w bus event once callback
    | unsubscribe bus s => exact .unsubscribe w bus s
    | cancel s => exact .cancel w s
    | clear bus event => exact .clear w bus event
    | count | names => exact .record w _
  | begin bus event payload => exact .beginPublication w bus event payload
  | invoke => exact .record w _
  | conclude invoked => exact .concludePublication w _ _ invoked

theorem retains_of_steps {w w' : World σ α} (h : Steps w w') : Retains w w' := by
  induction h with
  | refl => exact .aside w w.memory w.log
  | tail _ hstep ih => exact ih.trans (retains_of_step hstep)

/-- A run keeps the persistent subscriptions that it leaves alone, at each of its moments. -/
theorem retains_of_run {schedule : Schedule σ α} {depth : Nat}
    {script : Script σ α} {w w' : World σ α} {failure : Option Failure}
    (h : script.run schedule depth w = some (w', failure)) : Retains w w' :=
  retains_of_steps (steps_of_run h)

end AgentMarkup.Bus
