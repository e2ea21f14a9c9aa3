import AgentMarkup.Proofs.Bus.Listeners
import AgentMarkup.Proofs.Bus.Step

/-!
The steps of an execution as far as most statements need them. `Plain` says what an operation
other than a publication can do to a world: it subscribes, or it takes listeners away and gives
the answer that the buses call for. `Move` adds the beginning of a publication, the invocation
of a listener and the conclusion. Every step is a move (`Step.move`), so whatever a move keeps,
a run keeps.
-/

set_option autoImplicit false
set_option relaxedAutoImplicit false

namespace AgentMarkup.Bus

variable {σ α : Type}

/-! ### Single steps -/

/-- Whether an act that neither subscribes nor belongs to a publication gave the answer that
the buses before it call for. -/
def Act.Fits (stores : List (Store σ α)) : Act α → Prop
  | .create _ | .clone _ | .drop _ | .clear _ _ => True
  | .unsubscribe bus s found => found = (storeOf stores bus).holds s.event s.id
  | .cancel s found =>
    found = ((storeOf stores s.bus).handles ≠ 0 && (storeOf stores s.bus).holds s.event s.id)
  | .count bus event listeners => listeners = (storeOf stores bus).count event
  | .names bus events => events = (storeOf stores bus).names
  | .subscribe _ _ | .publish _ _ _ | .invoke _ _ _ | .conclude _ _ => False

/-- Whether an act belongs to the publication of this number, its beginning aside. -/
def Act.belongsTo (number : Nat) : Act α → Bool
  | .invoke publication _ _ | .conclude publication _ => publication = number
  | .create _ | .clone _ | .drop _ | .subscribe _ _ | .unsubscribe _ _ _ | .cancel _ _
  | .publish _ _ _ | .clear _ _ | .count _ _ _ | .names _ _ => false

theorem Act.Fits.belongsTo_eq_false {stores : List (Store σ α)} {act : Act α}
    (h : act.Fits stores) (number : Nat) : act.belongsTo number = false := by
  cases act <;> first | rfl | exact h.elim

/-- What an operation other than a publication does to a world. -/
inductive Plain (w : World σ α) : World σ α → Prop
  | aside (memory : σ) (log : List LogEntry) : Plain w { w with memory, log }
  | subscribe (bus : BusId) (event : String) (once : Bool) (callback : α → Script σ α) :
    Plain w (w.subscribe bus event once callback).2
  | quiet {act : Act α} {stores : List (Store σ α)} (hact : act.Fits w.stores)
    (hstores : Thins stores w.stores) : Plain w { w.record act with stores }

/-- What a step of an execution does to a world. A publication is known by the number of
moments before it, so there are more of them when it invokes a listener. -/
inductive Move (w : World σ α) : World σ α → Prop
  | plain {next : World σ α} (h : Plain w next) : Move w next
  | begin (bus : BusId) (event : String) (payload : α) :
    Move w (w.beginPublication bus event payload)
  | invoke {publication : Nat} (listener : Nat) (payload : α)
    (h : publication < w.history.length) :
    Move w (w.record (.invoke publication listener payload))
  | conclude {publication : Nat} (bus : BusId) (invoked : Nat)
    (h : publication < w.history.length) :
    Move w (w.concludePublication bus publication invoked)

/-- Any number of steps. -/
abbrev Moves : World σ α → World σ α → Prop := Relation.ReflTransGen Move

namespace Plain

variable (w : World σ α)

theorem create : Plain w w.create.2 :=
  .quiet trivial (thins_append_fresh w.stores)

theorem clone (bus : BusId) : Plain w (w.clone bus) :=
  .quiet trivial (thins_modify (f := Store.acquire) (fun _ _ ↦ List.Sublist.refl _) w.stores bus)

theorem drop (bus : BusId) : Plain w (w.drop bus) :=
  .quiet trivial (thins_modify Store.sublist_release w.stores bus)

theorem unsubscribe (bus : BusId) (s : Subscription) : Plain w (w.unsubscribe bus s).2 :=
  .quiet rfl (thins_modify (Store.sublist_remove · s.event s.id) w.stores bus)

theorem cancel (s : Subscription) : Plain w (w.cancel s).2 := by
  unfold World.cancel
  split_ifs with hhandles
  · change (storeOf w.stores s.bus).handles = 0 at hhandles
    have hact : (Act.cancel s false : Act α).Fits w.stores := by simp [Act.Fits, hhandles]
    exact .quiet hact (Thins.refl w.stores)
  · change (storeOf w.stores s.bus).handles ≠ 0 at hhandles
    have hact : (Act.cancel s ((w.store s.bus).holds s.event s.id) : Act α).Fits w.stores := by
      simp [Act.Fits, hhandles, World.store]
    exact .quiet hact (thins_modify (Store.sublist_remove · s.event s.id) w.stores s.bus)

theorem clear (bus : BusId) (event : Option String) : Plain w (w.clear bus event) :=
  .quiet trivial (thins_modify (Store.sublist_clear · event) w.stores bus)

theorem count (bus : BusId) (event : String) : Plain w (w.count bus event).2 :=
  .quiet rfl (Thins.refl w.stores)

theorem names (bus : BusId) : Plain w (w.names bus).2 :=
  .quiet rfl (Thins.refl w.stores)

end Plain

/-! ### Steps are moves -/

theorem Operation.plain {w next : World σ α} (h : Operation w next) : Plain w next := by
  cases h with
  | aside memory log => exact .aside memory log
  | create => exact .create w
  | clone bus => exact .clone w bus
  | drop bus => exact .drop w bus
  | subscribe bus event once callback => exact .subscribe bus event once callback
  | unsubscribe bus s => exact .unsubscribe w bus s
  | cancel s => exact .cancel w s
  | clear bus event => exact .clear w bus event
  | count bus event => exact .count w bus event
  | names bus => exact .names w bus

theorem Step.move {w next : World σ α} (h : Step w next) : Move w next := by
  cases h with
  | operation h => exact .plain h.plain
  | begin bus event payload => exact .begin bus event payload
  | invoke listener hnumber => exact .invoke listener _ hnumber.lt_length
  | conclude invoked hnumber => exact .conclude _ invoked hnumber.lt_length

theorem Steps.moves {w w' : World σ α} (h : Steps w w') : Moves w w' :=
  Relation.ReflTransGen.mono (fun _ _ hstep ↦ hstep.move) _ _ h

theorem World.Arises.exists_moves {schedule : Schedule σ α} {w : World σ α}
    (h : w.Arises schedule) : ∃ memory, Moves (World.empty memory) w := by
  obtain ⟨memory, hsteps⟩ := h.exists_steps
  exact ⟨memory, hsteps.moves⟩

/-! ### Relations that plain operations have -/

/-- Relations between the world before a stretch of an execution and the one after it that
hold of the whole if they hold of the parts, whatever the plain operations among these are. -/
structure Composes (schedule : Schedule σ α) (R : World σ α → World σ α → Prop) : Prop where
  refl : ∀ w, R w w
  trans : ∀ {u v w}, R u v → R v w → R u w
  plain : ∀ {w w'}, Plain w w' → R w w'
  publish : ∀ {call : Script σ α → World σ α → Ending σ α},
    (∀ {script w w' failure}, call script w = some (w', failure) →
      script.EndsIn schedule w w' ∧ R w w') →
    ∀ {bus event payload w invoked w'},
      Bus.publish schedule call bus event payload w = some (invoked, w') → R w w'

namespace Composes

variable {schedule : Schedule σ α} {R : World σ α → World σ α → Prop}

theorem exactly (h : Composes schedule R) : ComposesExactly schedule R where
  refl := h.refl
  trans := h.trans
  operation hoperation := h.plain hoperation.plain
  publish := h.publish

theorem of_run (h : Composes schedule R) {depth : Nat} {script : Script σ α}
    {w w' : World σ α} {failure : Option Failure}
    (hrun : script.run schedule depth w = some (w', failure)) : R w w' :=
  h.exactly.of_run hrun

theorem of_arises (h : Composes schedule R) {w : World σ α} (hw : w.Arises schedule) :
    ∃ memory, R (World.empty memory) w :=
  h.exactly.of_arises hw

end Composes

/-! ### Histories -/

theorem Move.records {w next : World σ α} (h : Move w next) : Records w next := by
  cases h with
  | plain h =>
    cases h with
    | aside => exact Or.inl ⟨rfl, rfl⟩
    | subscribe | quiet => exact Or.inr ⟨_, rfl⟩
  | begin | invoke | conclude => exact Or.inr ⟨_, rfl⟩

theorem Moves.prefix_history {w w' : World σ α} (h : Moves w w') :
    w.history <+: w'.history :=
  prefix_history_of_records Move.records h

/-- What an act tells of the step that added it to the history. -/
def Act.Tells (w next : World σ α) : Act α → Prop
  | .subscribe s once => s.id = w.nextId ∧
    ∃ callback, next = (w.subscribe s.bus s.event once callback).2
  | .publish bus event payload => next = w.beginPublication bus event payload
  | .invoke publication _ _ | .conclude publication _ => publication < w.history.length
  | act => act.Fits w.stores

theorem Act.Fits.tells {w next : World σ α} {act : Act α} (h : act.Fits w.stores) :
    act.Tells w next := by
  cases act <;> first | exact h | exact h.elim

theorem Move.tells {w next : World σ α} (h : Move w next) {m : Moment σ α}
    (hm : next.history = w.history ++ [m]) : m.act.Tells w next := by
  have hlast {act : Act α} (heq : next.history = w.history ++ [⟨w.stores, act⟩]) :
      m.act = act := by
    rw [hm] at heq
    rw [(List.cons.inj (List.append_cancel_left heq)).1]
  cases h with
  | plain h =>
    cases h with
    | aside => simp at hm
    | subscribe bus event once callback =>
      rw [hlast rfl]
      exact ⟨rfl, callback, rfl⟩
    | quiet hact =>
      rw [hlast rfl]
      exact hact.tells
  | begin | invoke _ _ hnumber | conclude _ _ hnumber =>
    rw [hlast rfl]
    first | rfl | exact hnumber

end AgentMarkup.Bus
