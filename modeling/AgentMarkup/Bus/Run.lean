import AgentMarkup.Bus.Basic

/-!
Running scripts. A publication takes a snapshot of the listeners of its event, lets go
of those that want a single delivery, and then invokes the snapshot one by one; a
callback that fails is reported and the next one is invoked all the same. The order of
a snapshot is not laid down, so a schedule chooses it. Publications may nest without
end, and running gives no answer where they nest deeper than allowed.
-/

set_option autoImplicit false
set_option relaxedAutoImplicit false

namespace AgentMarkup.Bus

variable {σ α : Type}

/-- An order of delivery for each publication, by its number. -/
structure Schedule (σ α : Type) where
  arrange : Nat → List (Listener σ α) → List (Listener σ α)
  perm : ∀ number listeners, (arrange number listeners).Perm listeners

/-- Listeners in the order in which they subscribed. -/
def Schedule.inOrder : Schedule σ α := ⟨fun _ listeners ↦ listeners, fun _ _ ↦ .refl _⟩

/-- The world a script leaves and its failure, if it failed; nothing if it has no end. -/
abbrev Ending (σ α : Type) := Option (World σ α × Option Failure)

def failureLog (event : String) (failure : Failure) : LogEntry :=
  ⟨.error, s!"subscriber for '{event}' panicked: {failure.message}"⟩

/-- Invokes listeners one after another, reporting failures. -/
def deliver (call : Script σ α → World σ α → Ending σ α) (event : String) (payload : α)
    (number : Nat) : List (Listener σ α) → World σ α → Option (World σ α)
  | [], w => some w
  | l :: rest, w =>
    match call (l.callback payload) (w.record (.invoke number l.id payload)) with
    | none => none
    | some (w, none) => deliver call event payload number rest w
    | some (w, some failure) =>
      deliver call event payload number rest (w.report (failureLog event failure))

/-- Publishes an event and tells how many listeners were invoked. -/
def publish (schedule : Schedule σ α) (call : Script σ α → World σ α → Ending σ α)
    (bus : BusId) (event : String) (payload : α) (w : World σ α) : Option (Nat × World σ α) :=
  let snapshot := (w.store bus).listenersOf event
  let number := w.history.length
  (deliver call event payload number (schedule.arrange number snapshot)
      (w.beginPublication bus event payload)).map fun w ↦
    (snapshot.length, w.concludePublication bus number snapshot.length)

namespace Script

/-- Runs a script; `call` runs the callbacks it sets off. -/
def eval (schedule : Schedule σ α) (call : Script σ α → World σ α → Ending σ α) :
    Script σ α → World σ α → Ending σ α
  | .done, w => some (w, none)
  | .fail failure, w => some (w, some failure)
  | .recall next, w => (next w.memory).eval schedule call w
  | .remember memory next, w => next.eval schedule call { w with memory }
  | .create next, w => (next w.create.1).eval schedule call w.create.2
  | .clone bus next, w => next.eval schedule call (w.clone bus)
  | .drop bus next, w => next.eval schedule call (w.drop bus)
  | .subscribe bus event once callback next, w =>
    (next (w.subscribe bus event once callback).1).eval schedule call
      (w.subscribe bus event once callback).2
  | .unsubscribe bus subscription next, w =>
    (next (w.unsubscribe bus subscription).1).eval schedule call
      (w.unsubscribe bus subscription).2
  | .cancel subscription next, w =>
    (next (w.cancel subscription).1).eval schedule call (w.cancel subscription).2
  | .publish bus event payload next, w =>
    match Bus.publish schedule call bus event payload w with
    | none => none
    | some (invoked, w) => (next invoked).eval schedule call w
  | .clear bus event next, w => next.eval schedule call (w.clear bus event)
  | .count bus event next, w =>
    (next (w.count bus event).1).eval schedule call (w.count bus event).2
  | .names bus next, w => (next (w.names bus).1).eval schedule call (w.names bus).2

/-- Runs a script in which publications nest at most so deep. -/
def run (schedule : Schedule σ α) : Nat → Script σ α → World σ α → Ending σ α
  | 0 => eval schedule fun _ _ ↦ none
  | depth + 1 => eval schedule (run schedule depth)

end Script

end AgentMarkup.Bus
