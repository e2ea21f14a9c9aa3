import AgentMarkup.Proofs.Bus.Listeners
import AgentMarkup.Proofs.Bus.Step
import Mathlib.Data.List.Forall2

/-!
Scripts that differ in how callbacks end. `Script.Altered` relates a script to one that does the
same, operation by operation and answer by answer, up to two things: where it comes to its end it
may be made to fail, and the callbacks that it subscribes may be altered in the same way, any of
them and at any depth. Listeners and stores are related as their callbacks are, by a list that
tells of each subscription whether its callback was made to fail. The operations on stores keep the
relation and have the same answers.
-/

set_option autoImplicit false
set_option relaxedAutoImplicit false

namespace AgentMarkup.Bus

variable {σ α : Type}

/-! ### Scripts -/

/-- How a script ends that fails where it would have come to its end, if it is `breaking`. One that
fails anyway fails in the same way. -/
def EndsAs (breaking : Bool) : Option Failure → Option Failure → Prop
  | none, failure => failure.isSome = breaking
  | some failure, failure' => failure' = some failure

theorem EndsAs.eq_of_false {failure failure' : Option Failure} (h : EndsAs false failure failure') :
    failure' = failure := by
  cases failure with
  | none => exact Option.isSome_eq_false_iff.mp h |> Option.isNone_iff_eq_none.mp
  | some failure => exact h

/-- Whether the second script does what the first one does, and then fails if it is `breaking`.
Of the callbacks that are subscribed each may break or not. -/
inductive Script.Altered : Bool → Script σ α → Script σ α → Prop
  | done : Altered false .done .done
  | breaks (failure : Failure) : Altered true .done (.fail failure)
  | fail {breaking : Bool} (failure : Failure) : Altered breaking (.fail failure) (.fail failure)
  | «recall» {breaking : Bool} {next next' : σ → Script σ α}
    (hnext : ∀ memory, Altered breaking (next memory) (next' memory)) :
    Altered breaking (.recall next) (.recall next')
  | remember {breaking : Bool} {next next' : Script σ α} (memory : σ)
    (hnext : Altered breaking next next') :
    Altered breaking (.remember memory next) (.remember memory next')
  | create {breaking : Bool} {next next' : BusId → Script σ α}
    (hnext : ∀ bus, Altered breaking (next bus) (next' bus)) :
    Altered breaking (.create next) (.create next')
  | clone {breaking : Bool} {next next' : Script σ α} (bus : BusId)
    (hnext : Altered breaking next next') :
    Altered breaking (.clone bus next) (.clone bus next')
  | drop {breaking : Bool} {next next' : Script σ α} (bus : BusId)
    (hnext : Altered breaking next next') :
    Altered breaking (.drop bus next) (.drop bus next')
  | subscribe {breaking : Bool} {callback callback' : α → Script σ α}
    {next next' : Subscription → Script σ α} (bus : BusId) (event : String) (once : Bool)
    (broken : Bool) (hcallback : ∀ payload, Altered broken (callback payload) (callback' payload))
    (hnext : ∀ s, Altered breaking (next s) (next' s)) :
    Altered breaking (.subscribe bus event once callback next)
      (.subscribe bus event once callback' next')
  | unsubscribe {breaking : Bool} {next next' : Bool → Script σ α} (bus : BusId)
    (s : Subscription) (hnext : ∀ found, Altered breaking (next found) (next' found)) :
    Altered breaking (.unsubscribe bus s next) (.unsubscribe bus s next')
  | cancel {breaking : Bool} {next next' : Bool → Script σ α} (s : Subscription)
    (hnext : ∀ found, Altered breaking (next found) (next' found)) :
    Altered breaking (.cancel s next) (.cancel s next')
  | publish {breaking : Bool} {next next' : Nat → Script σ α} (bus : BusId) (event : String)
    (payload : α) (hnext : ∀ invoked, Altered breaking (next invoked) (next' invoked)) :
    Altered breaking (.publish bus event payload next) (.publish bus event payload next')
  | clear {breaking : Bool} {next next' : Script σ α} (bus : BusId) (event : Option String)
    (hnext : Altered breaking next next') :
    Altered breaking (.clear bus event next) (.clear bus event next')
  | count {breaking : Bool} {next next' : Nat → Script σ α} (bus : BusId) (event : String)
    (hnext : ∀ listeners, Altered breaking (next listeners) (next' listeners)) :
    Altered breaking (.count bus event next) (.count bus event next')
  | names {breaking : Bool} {next next' : List String → Script σ α} (bus : BusId)
    (hnext : ∀ events, Altered breaking (next events) (next' events)) :
    Altered breaking (.names bus next) (.names bus next')

/-! ### Listeners -/

/-- Listeners of one subscription. The list tells of each subscription whether its callback
breaks. -/
structure Listener.Altered (broken : List Bool) (l l' : Listener σ α) : Prop where
  id : l'.id = l.id
  once : l'.once = l.once
  callback : ∃ breaking, broken[l.id]? = some breaking ∧
    ∀ payload, (l.callback payload).Altered breaking (l'.callback payload)

theorem Listener.Altered.mono {broken more : List Bool} (hmore : broken <+: more)
    {l l' : Listener σ α} (h : l.Altered broken l') : l.Altered more l' := by
  obtain ⟨breaking, hbroken, hcallback⟩ := h.callback
  exact ⟨h.id, h.once, breaking, getElem?_of_isPrefix hmore hbroken, hcallback⟩

/-! ### Stores -/

/-- Stores with the same handles and, for each event, listeners of the same subscriptions in the
same order. -/
structure Store.Altered (broken : List Bool) (s s' : Store σ α) : Prop where
  handles : s'.handles = s.handles
  listeners : ∀ event, Option.Rel (List.Forall₂ (Listener.Altered broken))
    (s.listeners.get? event) (s'.listeners.get? event)

namespace Store.Altered

variable {broken : List Bool} {s s' : Store σ α}

theorem mono {more : List Bool} (hmore : broken <+: more) (h : s.Altered broken s') :
    s.Altered more s' where
  handles := h.handles
  listeners event := by
    have hls := h.listeners event
    generalize s.listeners.get? event = found at hls ⊢
    generalize s'.listeners.get? event = found' at hls ⊢
    cases hls with
    | none => exact .none
    | some hls => exact .some (hls.imp fun _ _ hl ↦ hl.mono hmore)

theorem listenersOf (h : s.Altered broken s') (event : String) :
    List.Forall₂ (Listener.Altered broken) (s.listenersOf event) (s'.listenersOf event) := by
  have hls := h.listeners event
  unfold Store.listenersOf
  generalize s.listeners.get? event = found at hls ⊢
  generalize s'.listeners.get? event = found' at hls ⊢
  cases hls with
  | none => exact .nil
  | some hls => exact hls

theorem setListeners (h : s.Altered broken s') (event : String) {ls ls' : List (Listener σ α)}
    (hls : List.Forall₂ (Listener.Altered broken) ls ls') :
    (s.setListeners event ls).Altered broken (s'.setListeners event ls') where
  handles := h.handles
  listeners e := by
    cases hls with
    | nil =>
      simp only [Store.setListeners, List.isEmpty_nil, if_true, Table.get?_erase]
      split_ifs
      · exact .none
      · exact h.listeners e
    | cons hl hrest =>
      simp only [Store.setListeners, List.isEmpty_cons, Bool.false_eq_true, if_false,
        Table.get?_insert]
      split_ifs
      · exact .some (.cons hl hrest)
      · exact h.listeners e

/-- Listeners are chosen alike by whatever does not look at their callbacks. -/
theorem filter {ls ls' : List (Listener σ α)} {p : Listener σ α → Bool}
    (hp : ∀ {l l' : Listener σ α}, l.Altered broken l' → p l' = p l)
    (hls : List.Forall₂ (Listener.Altered broken) ls ls') :
    List.Forall₂ (Listener.Altered broken) (ls.filter p) (ls'.filter p) :=
  List.rel_filter (fun l l' hl ↦ by simp only [hp hl]) hls

theorem add (h : s.Altered broken s') (event : String) {l l' : Listener σ α}
    (hl : l.Altered broken l') : (s.add event l).Altered broken (s'.add event l') :=
  h.setListeners event (List.rel_append (h.listenersOf event) (.cons hl .nil))

theorem holds_eq (h : s.Altered broken s') (event : String) (id : Nat) :
    s'.holds event id = s.holds event id := by
  have hls := h.listenersOf event
  unfold Store.holds
  generalize s.listenersOf event = ls at hls ⊢
  generalize s'.listenersOf event = ls' at hls ⊢
  induction hls with
  | nil => rfl
  | cons hl _ ih => rw [List.any_cons, List.any_cons, ih, hl.id]

theorem remove (h : s.Altered broken s') (event : String) (id : Nat) :
    (s.remove event id).Altered broken (s'.remove event id) := by
  unfold Store.remove
  rw [h.holds_eq event id]
  split_ifs
  · exact h.setListeners event (filter (fun hl ↦ by rw [hl.id]) (h.listenersOf event))
  · exact h

theorem dropOnce (h : s.Altered broken s') (event : String) :
    (s.dropOnce event).Altered broken (s'.dropOnce event) :=
  h.setListeners event (filter (fun hl ↦ by rw [hl.once]) (h.listenersOf event))

theorem clear (h : s.Altered broken s') (event : Option String) :
    (s.clear event).Altered broken (s'.clear event) where
  handles := by rw [handles_clear, handles_clear, h.handles]
  listeners e := by
    cases event with
    | none => exact .none
    | some event =>
      simp only [Store.clear, Table.get?_erase]
      split_ifs
      · exact .none
      · exact h.listeners e

theorem acquire (h : s.Altered broken s') : s.acquire.Altered broken s'.acquire :=
  ⟨congrArg (· + 1) h.handles, h.listeners⟩

theorem release (h : s.Altered broken s') : s.release.Altered broken s'.release := by
  unfold Store.release
  rw [h.handles]
  split_ifs
  · exact ⟨rfl, fun _ ↦ .none⟩
  · exact ⟨rfl, h.listeners⟩

theorem count_eq (h : s.Altered broken s') (event : String) : s'.count event = s.count event :=
  (h.listenersOf event).length_eq.symm

theorem names_eq (h : s.Altered broken s') : s'.names = s.names := by
  refine Table.keys_eq_of_mem_iff fun event ↦ ?_
  have hls := h.listeners event
  rw [Table.mem_keys_iff, Table.mem_keys_iff]
  generalize s.listeners.get? event = found at hls ⊢
  generalize s'.listeners.get? event = found' at hls ⊢
  cases hls <;> simp

end Store.Altered

/-! ### Buses -/

/-- As many buses, each with its store altered. -/
structure AlteredStores (broken : List Bool) (stores stores' : List (Store σ α)) : Prop where
  length : stores'.length = stores.length
  store : ∀ bus, (storeOf stores bus).Altered broken (storeOf stores' bus)

namespace AlteredStores

variable {broken : List Bool} {stores stores' : List (Store σ α)}

theorem mono {more : List Bool} (hmore : broken <+: more)
    (h : AlteredStores broken stores stores') : AlteredStores more stores stores' :=
  ⟨h.length, fun bus ↦ (h.store bus).mono hmore⟩

theorem modify (h : AlteredStores broken stores stores') (bus : BusId)
    {f f' : Store σ α → Store σ α}
    (hf : ∀ {s s' : Store σ α}, s.Altered broken s' → (f s).Altered broken (f' s')) :
    AlteredStores broken (stores.modify bus f) (stores'.modify bus f') where
  length := by rw [List.length_modify, List.length_modify, h.length]
  store b := by
    rw [storeOf_modify, storeOf_modify, h.length]
    split_ifs
    · exact hf (h.store b)
    · exact h.store b

theorem append_fresh (h : AlteredStores broken stores stores') :
    AlteredStores broken (stores ++ [.fresh]) (stores' ++ [.fresh]) where
  length := by rw [List.length_append, List.length_append, h.length]
  store b := by
    have hstore := h.store b
    unfold storeOf at hstore ⊢
    simp only [List.getD_eq_getElem?_getD, List.getElem?_append, h.length] at hstore ⊢
    split_ifs
    · exact hstore
    · cases (b - stores.length) with
      | zero => exact ⟨rfl, fun _ ↦ .none⟩
      | succ n => exact ⟨rfl, fun _ ↦ .none⟩

end AlteredStores

end AgentMarkup.Bus
