import AgentMarkup.Proofs.Bus.Altered
import AgentMarkup.Proofs.Bus.Invocation
import AgentMarkup.Proofs.Bus.Registration

/-!
Two worlds side by side, of which the second has callbacks that break. `Accounts` says of one
world what its log must be: the callbacks that ended are those that were invoked, the pending ones
aside, each of them ended as its run did (`Return.Ended`), and the log has one entry for each of
them that failed. The entry is an error, and its text names the event that was published and says
what the callback failed with (`Return.entry?`).

`World.Altered` says that two worlds have the same buses, listeners, history and memory up to the
callbacks of the listeners, and that callbacks ended alike unless they break. Every operation keeps
this and has the same answer in both worlds.
-/

set_option autoImplicit false
set_option relaxedAutoImplicit false

namespace AgentMarkup.Bus

variable {σ α : Type} {schedule : Schedule σ α}

/-! ### Callbacks and the log -/

/-- A callback that ended: the publication and the listener that it was invoked for, the event,
and how it ended. -/
structure Return where
  publication : Nat
  listener : Nat
  event : String
  failure : Option Failure

def Return.call (r : Return) : Nat × Nat :=
  (r.publication, r.listener)

/-- What the log says of it: nothing, or an error that names the event. -/
def Return.entry? (r : Return) : Option LogEntry :=
  match r.failure with
  | none => none
  | some (.text text) => some ⟨.error, "subscriber for '" ++ r.event ++ "' panicked: " ++ text⟩
  | some .other =>
    some ⟨.error, "subscriber for '" ++ r.event ++ "' panicked: " ++ "unknown panic"⟩

/-- This is what deliveries report. -/
theorem Return.entry?_eq (r : Return) : r.entry? = r.failure.map (failureLog r.event) := by
  obtain ⟨_, _, event, failure⟩ := r
  cases failure with
  | none => rfl
  | some failure =>
    cases failure with
    | text text => rfl
    | other => rfl

/-- Whether a callback ended like this in an execution with this history: the publication was one
of the event and had found the listener, and the callback ran from its invocation to this end. -/
def Return.Ended (schedule : Schedule σ α) (history : List (Moment σ α)) (r : Return) : Prop :=
  ∃ (bus : BusId) (l : Listener σ α) (payload : α) (depth : Nat) (start finish : World σ α),
    Publishes history r.publication bus r.event payload ∧
    Finds history r.publication l payload ∧ l.id = r.listener ∧
    (l.callback payload).run schedule depth
      (start.record (.invoke r.publication r.listener payload)) = some (finish, r.failure) ∧
    finish.history <+: history

theorem Return.Ended.mono {first second : List (Moment σ α)} (h : first <+: second) {r : Return}
    (hfirst : r.Ended schedule first) : r.Ended schedule second := by
  obtain ⟨bus, l, payload, depth, start, finish, hnumber, hfound, hid, hrun, hfinish⟩ := hfirst
  exact ⟨bus, l, payload, depth, start, finish, hnumber.mono h, hfound.mono h, hid, hrun,
    hfinish.trans h⟩

/-- The same invocation, with a callback that may have been made to fail. -/
structure Return.Altered (broken : List Bool) (r r' : Return) : Prop where
  call : r'.call = r.call
  event : r'.event = r.event
  failure : ∃ breaking, broken[r.listener]? = some breaking ∧ EndsAs breaking r.failure r'.failure

theorem Return.Altered.mono {broken more : List Bool} (hmore : broken <+: more) {r r' : Return}
    (h : r.Altered broken r') : r.Altered more r' := by
  obtain ⟨breaking, hbroken, hends⟩ := h.failure
  exact ⟨h.call, h.event, breaking, getElem?_of_isPrefix hmore hbroken, hends⟩

/-- Publication and listener of an invocation. -/
def Act.call? : Act α → Option (Nat × Nat)
  | .invoke publication listener _ => some (publication, listener)
  | .create _ | .clone _ | .drop _ | .subscribe _ _ | .unsubscribe _ _ _ | .cancel _ _
  | .publish _ _ _ | .conclude _ _ | .clear _ _ | .count _ _ _ | .names _ _ => none

/-- Whether these are the callbacks that ended, in this order, and those of the other invocations
are pending. The log has one error for each that failed, naming the event that was published. -/
structure Accounts (schedule : Schedule σ α) (pending : List (Nat × Nat)) (returns : List Return)
    (history : List (Moment σ α)) (log : List LogEntry) : Prop where
  calls : (returns.map Return.call ++ pending).Perm ((acts history).filterMap Act.call?)
  ended : ∀ r ∈ returns, r.Ended schedule history
  log : log = returns.filterMap Return.entry?

namespace Accounts

variable {pending : List (Nat × Nat)} {returns : List Return} {history : List (Moment σ α)}
  {log : List LogEntry}

/-- An invocation is pending until its callback ends; other acts change nothing. -/
theorem moment (h : Accounts schedule pending returns history log) (m : Moment σ α) :
    Accounts schedule (m.act.call?.toList ++ pending) returns (history ++ [m]) log where
  calls := by
    rw [acts_append, List.filterMap_append]
    refine (List.Perm.append_left _ List.perm_append_comm).trans ?_
    rw [← List.append_assoc, ← filterMap_singleton_eq_toList]
    exact h.calls.append_right _
  ended r hr := (h.ended r hr).mono (List.prefix_append _ _)
  log := h.log

theorem «return» {r : Return} (h : Accounts schedule (r.call :: pending) returns history log)
    (hended : r.Ended schedule history) :
    Accounts schedule pending (returns ++ [r]) history
      (log ++ (r.failure.map (failureLog r.event)).toList) where
  calls := by
    rw [List.map_append, List.append_assoc]
    exact h.calls
  ended other hother := by
    rcases List.mem_append.mp hother with hold | hnew
    · exact h.ended other hold
    · exact List.mem_singleton.mp hnew ▸ hended
  log := by
    rw [List.filterMap_append, filterMap_singleton_eq_toList, r.entry?_eq, h.log]

end Accounts

/-! ### Two worlds -/

structure Moment.Altered (broken : List Bool) (m m' : Moment σ α) : Prop where
  act : m'.act = m.act
  stores : AlteredStores broken m.stores m'.stores

/-- The worlds of two executions of the same operations, of which the second has callbacks that
break. They differ in the callbacks of listeners and in the log, which has an error for each
callback that failed. -/
structure World.Altered (schedule : Schedule σ α) (broken : List Bool)
    (pending : List (Nat × Nat)) (returns returns' : List Return) (w w' : World σ α) : Prop where
  stores : AlteredStores broken w.stores w'.stores
  nextId : w'.nextId = w.nextId
  memory : w'.memory = w.memory
  history : List.Forall₂ (Moment.Altered broken) w.history w'.history
  length_broken : broken.length = w.nextId
  returned : List.Forall₂ (Return.Altered broken) returns returns'
  accounts : Accounts schedule pending returns w.history w.log
  accounts' : Accounts schedule pending returns' w'.history w'.log

namespace World.Altered

variable {broken : List Bool} {pending : List (Nat × Nat)} {returns returns' : List Return}
  {w w' : World σ α}

theorem empty (memory : σ) :
    (World.empty memory).Altered schedule [] [] [] [] (World.empty memory) where
  stores := ⟨rfl, fun _ ↦ ⟨rfl, fun _ ↦ .none⟩⟩
  nextId := rfl
  memory := rfl
  history := .nil
  length_broken := rfl
  returned := .nil
  accounts := ⟨.nil, fun _ h ↦ absurd h List.not_mem_nil, rfl⟩
  accounts' := ⟨.nil, fun _ h ↦ absurd h List.not_mem_nil, rfl⟩

theorem acts_eq (h : w.Altered schedule broken pending returns returns' w') :
    acts w'.history = acts w.history := by
  have hhistory := h.history
  generalize w.history = history at hhistory ⊢
  generalize w'.history = history' at hhistory ⊢
  induction hhistory with
  | nil => rfl
  | cons hm _ ih => rw [acts, acts, List.map_cons, List.map_cons, hm.act]; exact congrArg _ ih

theorem length_history (h : w.Altered schedule broken pending returns returns' w') :
    w'.history.length = w.history.length :=
  h.history.length_eq.symm

theorem enter (h : w.Altered schedule broken pending returns returns' w') (act : Act α) :
    (w.record act).Altered schedule broken (act.call?.toList ++ pending) returns returns'
      (w'.record act) :=
  { h with
    history := List.rel_append h.history (.cons ⟨rfl, h.stores⟩ .nil)
    accounts := h.accounts.moment ⟨w.stores, act⟩
    accounts' := h.accounts'.moment ⟨w'.stores, act⟩ }

theorem record (h : w.Altered schedule broken pending returns returns' w') (act : Act α)
    (hact : act.call? = none) :
    (w.record act).Altered schedule broken pending returns returns' (w'.record act) := by
  have hentered := h.enter act
  rwa [hact] at hentered

theorem invoke (h : w.Altered schedule broken pending returns returns' w')
    (publication listener : Nat) (payload : α) :
    (w.record (.invoke publication listener payload)).Altered schedule broken
      ((publication, listener) :: pending) returns returns'
      (w'.record (.invoke publication listener payload)) :=
  h.enter (.invoke publication listener payload)

theorem update (h : w.Altered schedule broken pending returns returns' w') (bus : BusId)
    {f f' : Store σ α → Store σ α}
    (hf : ∀ {s s' : Store σ α}, s.Altered broken s' → (f s).Altered broken (f' s')) :
    (w.update bus f).Altered schedule broken pending returns returns' (w'.update bus f') :=
  { h with stores := h.stores.modify bus hf }

theorem remember (h : w.Altered schedule broken pending returns returns' w') (memory : σ) :
    World.Altered schedule broken pending returns returns' { w with memory } { w' with memory } :=
  { h with memory := rfl }

theorem create (h : w.Altered schedule broken pending returns returns' w') :
    w'.create.1 = w.create.1 ∧
      w.create.2.Altered schedule broken pending returns returns' w'.create.2 := by
  have hrecorded := h.record (.create w.stores.length) rfl
  rw [World.create, World.create, h.stores.length]
  exact ⟨rfl, { hrecorded with stores := h.stores.append_fresh }⟩

theorem subscribe (h : w.Altered schedule broken pending returns returns' w') (bus : BusId)
    (event : String) (once breaking : Bool) {callback callback' : α → Script σ α}
    (hcallback : ∀ payload, (callback payload).Altered breaking (callback' payload)) :
    (w'.subscribe bus event once callback').1 = (w.subscribe bus event once callback).1 ∧
      (w.subscribe bus event once callback).2.Altered schedule (broken ++ [breaking]) pending
        returns returns' (w'.subscribe bus event once callback').2 := by
  have hmore : broken <+: broken ++ [breaking] := List.prefix_append _ _
  have hrecorded := h.record (.subscribe ⟨bus, event, w.nextId⟩ once) rfl
  have hl : Listener.Altered (broken ++ [breaking]) ⟨w.nextId, once, callback⟩
      ⟨w.nextId, once, callback'⟩ :=
    ⟨rfl, rfl, breaking, h.length_broken ▸ List.getElem?_concat_length, hcallback⟩
  rw [World.subscribe, World.subscribe, h.nextId]
  refine ⟨rfl, { hrecorded with
    stores := (h.stores.mono hmore).modify bus (·.add event hl)
    nextId := rfl
    history := hrecorded.history.imp fun _ _ hm ↦ ⟨hm.act, hm.stores.mono hmore⟩
    length_broken := ?_
    returned := h.returned.imp fun _ _ hr ↦ hr.mono hmore }⟩
  rw [List.length_append, h.length_broken]
  rfl

theorem unsubscribe (h : w.Altered schedule broken pending returns returns' w') (bus : BusId)
    (s : Subscription) :
    (w'.unsubscribe bus s).1 = (w.unsubscribe bus s).1 ∧
      (w.unsubscribe bus s).2.Altered schedule broken pending returns returns'
        (w'.unsubscribe bus s).2 := by
  have hfound : (w'.store bus).holds s.event s.id = (w.store bus).holds s.event s.id :=
    (h.stores.store bus).holds_eq s.event s.id
  rw [World.unsubscribe, World.unsubscribe, hfound]
  exact ⟨rfl, (h.record _ rfl).update bus (·.remove s.event s.id)⟩

theorem cancel (h : w.Altered schedule broken pending returns returns' w') (s : Subscription) :
    (w'.cancel s).1 = (w.cancel s).1 ∧
      (w.cancel s).2.Altered schedule broken pending returns returns' (w'.cancel s).2 := by
  have hstore : (w.store s.bus).Altered broken (w'.store s.bus) := h.stores.store s.bus
  rw [World.cancel, World.cancel, hstore.handles, hstore.holds_eq]
  split_ifs
  · exact ⟨rfl, h.record _ rfl⟩
  · exact ⟨rfl, (h.record _ rfl).update s.bus (·.remove s.event s.id)⟩

theorem count (h : w.Altered schedule broken pending returns returns' w') (bus : BusId)
    (event : String) :
    (w'.count bus event).1 = (w.count bus event).1 ∧
      (w.count bus event).2.Altered schedule broken pending returns returns'
        (w'.count bus event).2 := by
  have hcount : (w'.store bus).count event = (w.store bus).count event :=
    (h.stores.store bus).count_eq event
  rw [World.count, World.count, hcount]
  exact ⟨rfl, h.record _ rfl⟩

theorem names (h : w.Altered schedule broken pending returns returns' w') (bus : BusId) :
    (w'.names bus).1 = (w.names bus).1 ∧
      (w.names bus).2.Altered schedule broken pending returns returns' (w'.names bus).2 := by
  have hnames : (w'.store bus).names = (w.store bus).names := (h.stores.store bus).names_eq
  rw [World.names, World.names, hnames]
  exact ⟨rfl, h.record _ rfl⟩

theorem beginPublication (h : w.Altered schedule broken pending returns returns' w') (bus : BusId)
    (event : String) (payload : α) :
    (w.beginPublication bus event payload).Altered schedule broken pending returns returns'
      (w'.beginPublication bus event payload) :=
  (h.record _ rfl).update bus fun hs ↦ (hs.dropOnce event).acquire

theorem concludePublication (h : w.Altered schedule broken pending returns returns' w')
    (bus : BusId) (publication invoked : Nat) :
    (w.concludePublication bus publication invoked).Altered schedule broken pending returns returns'
      (w'.concludePublication bus publication invoked) :=
  (h.record _ rfl).update bus (·.release)

theorem elim_report_eq (w : World σ α) (event : String) (failure : Option Failure) :
    (failure.elim w fun failure ↦ w.report (failureLog event failure)) =
      { w with log := w.log ++ (failure.map (failureLog event)).toList } := by
  cases failure with
  | none => simp
  | some failure => rfl

/-- A callback ends, and if it failed the log says so. -/
theorem finish {number id : Nat} {event : String} {breaking : Bool}
    {failure failure' : Option Failure}
    (h : w.Altered schedule broken ((number, id) :: pending) returns returns' w')
    (hbroken : broken[id]? = some breaking) (hends : EndsAs breaking failure failure')
    (hended : Return.Ended schedule w.history ⟨number, id, event, failure⟩)
    (hended' : Return.Ended schedule w'.history ⟨number, id, event, failure'⟩) :
    World.Altered schedule broken pending (returns ++ [⟨number, id, event, failure⟩])
      (returns' ++ [⟨number, id, event, failure'⟩])
      (failure.elim w fun failure ↦ w.report (failureLog event failure))
      (failure'.elim w' fun failure ↦ w'.report (failureLog event failure)) := by
  rw [elim_report_eq, elim_report_eq]
  exact { h with
    returned := List.rel_append h.returned (.cons ⟨rfl, rfl, breaking, hbroken, hends⟩ .nil)
    accounts := .return (r := ⟨number, id, event, failure⟩) h.accounts hended
    accounts' := .return (r := ⟨number, id, event, failure'⟩) h.accounts' hended' }

end World.Altered

end AgentMarkup.Bus
