import AgentMarkup.Log
import AgentMarkup.Table
import AgentMarkup.Text.Quoted

/-!
Event buses and the scripts that use them. A script is what a client or a callback does:
one operation after another, each chosen from the answers to those before. Callbacks are
scripts that await a payload, so they may do whatever a client may. Scripts share a
memory, and a script may fail. A world holds the buses and keeps the history of all that was
done with them, each act with the buses as it found them.
-/

set_option autoImplicit false
set_option relaxedAutoImplicit false

namespace AgentMarkup.Bus

/-- A bus, whatever handle it is used through. -/
abbrev BusId := Nat

structure Subscription where
  bus : BusId
  event : String
  id : Nat
deriving DecidableEq

/-- Why a script broke off: with a message, or with a value that has no text. -/
inductive Failure where
  | text (message : String)
  | other
deriving DecidableEq

def Failure.message : Failure → String
  | .text message => message
  | .other => "unknown panic"

/-- Scripts over buses with payloads in `α` and a shared memory in `σ`. -/
inductive Script (σ α : Type) where
  | done
  | fail (failure : Failure)
  | recall (next : σ → Script σ α)
  | remember (memory : σ) (next : Script σ α)
  | create (next : BusId → Script σ α)
  | clone (bus : BusId) (next : Script σ α)
  | drop (bus : BusId) (next : Script σ α)
  | subscribe (bus : BusId) (event : String) (once : Bool) (callback : α → Script σ α)
      (next : Subscription → Script σ α)
  | unsubscribe (bus : BusId) (subscription : Subscription) (next : Bool → Script σ α)
  | cancel (subscription : Subscription) (next : Bool → Script σ α)
  | publish (bus : BusId) (event : String) (payload : α) (next : Nat → Script σ α)
  | clear (bus : BusId) (event : Option String) (next : Script σ α)
  | count (bus : BusId) (event : String) (next : Nat → Script σ α)
  | names (bus : BusId) (next : List String → Script σ α)

structure Listener (σ α : Type) where
  id : Nat
  once : Bool
  callback : α → Script σ α

/-- The listeners of each event, none of them empty, and the number of handles. -/
structure Store (σ α : Type) where
  listeners : Table (List (Listener σ α))
  handles : Nat

namespace Store

variable {σ α : Type}

def fresh : Store σ α := ⟨.empty, 1⟩

def listenersOf (s : Store σ α) (event : String) : List (Listener σ α) :=
  (s.listeners.get? event).getD []

/-- Gives an event these listeners; an event without listeners is not kept. -/
def setListeners (s : Store σ α) (event : String) (ls : List (Listener σ α)) : Store σ α :=
  { s with
    listeners := if ls.isEmpty then s.listeners.erase event else s.listeners.insert event ls }

def add (s : Store σ α) (event : String) (l : Listener σ α) : Store σ α :=
  s.setListeners event (s.listenersOf event ++ [l])

/-- Whether a subscription is live under its event. -/
def holds (s : Store σ α) (event : String) (id : Nat) : Bool :=
  (s.listenersOf event).any (·.id = id)

def remove (s : Store σ α) (event : String) (id : Nat) : Store σ α :=
  if s.holds event id then s.setListeners event ((s.listenersOf event).filter (·.id ≠ id)) else s

/-- Takes out the listeners of an event that want a single delivery. -/
def dropOnce (s : Store σ α) (event : String) : Store σ α :=
  s.setListeners event ((s.listenersOf event).filter (!·.once))

def clear (s : Store σ α) : Option String → Store σ α
  | some event => { s with listeners := s.listeners.erase event }
  | none => { s with listeners := .empty }

def count (s : Store σ α) (event : String) : Nat :=
  (s.listenersOf event).length

/-- Events with listeners, in order. -/
def names (s : Store σ α) : List String :=
  s.listeners.keys

def inspect (s : Store σ α) : String :=
  Text.quoteRecord "EventBus" [("events", Text.quoteList s.names)]

def acquire (s : Store σ α) : Store σ α :=
  { s with handles := s.handles + 1 }

/-- Gives up a handle; with the last one the listeners go too. -/
def release (s : Store σ α) : Store σ α :=
  if s.handles ≤ 1 then ⟨.empty, 0⟩ else { s with handles := s.handles - 1 }

end Store

/-- One thing done with the buses, and its answer. A publication is known by the number of
moments before the one in which it began. -/
inductive Act (α : Type) where
  | create (bus : BusId)
  | clone (bus : BusId)
  | drop (bus : BusId)
  | subscribe (subscription : Subscription) (once : Bool)
  | unsubscribe (bus : BusId) (subscription : Subscription) (found : Bool)
  | cancel (subscription : Subscription) (found : Bool)
  | publish (bus : BusId) (event : String) (payload : α)
  | invoke (publication listener : Nat) (payload : α)
  | conclude (publication invoked : Nat)
  | clear (bus : BusId) (event : Option String)
  | count (bus : BusId) (event : String) (listeners : Nat)
  | names (bus : BusId) (events : List String)
deriving DecidableEq

/-- An act, and the buses as it found them. -/
structure Moment (σ α : Type) where
  stores : List (Store σ α)
  act : Act α

/-- The store of a bus; one that does not exist has no listeners and no handles. -/
def storeOf {σ α : Type} (stores : List (Store σ α)) (bus : BusId) : Store σ α :=
  stores.getD bus ⟨.empty, 0⟩

/-- All buses, the shared memory, and what has happened so far in order. -/
structure World (σ α : Type) where
  stores : List (Store σ α)
  nextId : Nat
  memory : σ
  history : List (Moment σ α)
  log : List LogEntry

namespace World

variable {σ α : Type}

/-- A world without buses. -/
def empty (memory : σ) : World σ α := ⟨[], 0, memory, [], []⟩

def store (w : World σ α) (bus : BusId) : Store σ α :=
  storeOf w.stores bus

def update (w : World σ α) (bus : BusId) (f : Store σ α → Store σ α) : World σ α :=
  { w with stores := w.stores.modify bus f }

def record (w : World σ α) (act : Act α) : World σ α :=
  { w with history := w.history ++ [⟨w.stores, act⟩] }

def report (w : World σ α) (e : LogEntry) : World σ α :=
  { w with log := w.log ++ [e] }

/-- A new bus with one handle. -/
def create (w : World σ α) : BusId × World σ α :=
  (w.stores.length,
    { w.record (.create w.stores.length) with stores := w.stores ++ [.fresh] })

def clone (w : World σ α) (bus : BusId) : World σ α :=
  (w.record (.clone bus)).update bus Store.acquire

def drop (w : World σ α) (bus : BusId) : World σ α :=
  (w.record (.drop bus)).update bus Store.release

def subscribe (w : World σ α) (bus : BusId) (event : String) (once : Bool)
    (callback : α → Script σ α) : Subscription × World σ α :=
  let subscription : Subscription := ⟨bus, event, w.nextId⟩
  (subscription,
    { w.record (.subscribe subscription once) with nextId := w.nextId + 1 }.update bus
      (·.add event ⟨w.nextId, once, callback⟩))

/-- Removes a subscription from this bus, and tells whether it was there. -/
def unsubscribe (w : World σ α) (bus : BusId) (s : Subscription) : Bool × World σ α :=
  let found := (w.store bus).holds s.event s.id
  (found, (w.record (.unsubscribe bus s found)).update bus (·.remove s.event s.id))

/-- Removes a subscription from its own bus, if that has a handle left. -/
def cancel (w : World σ α) (s : Subscription) : Bool × World σ α :=
  if (w.store s.bus).handles = 0 then (false, w.record (.cancel s false))
  else
    let found := (w.store s.bus).holds s.event s.id
    (found, (w.record (.cancel s found)).update s.bus (·.remove s.event s.id))

def clear (w : World σ α) (bus : BusId) (event : Option String) : World σ α :=
  (w.record (.clear bus event)).update bus (·.clear event)

def count (w : World σ α) (bus : BusId) (event : String) : Nat × World σ α :=
  let listeners := (w.store bus).count event
  (listeners, w.record (.count bus event listeners))

def names (w : World σ α) (bus : BusId) : List String × World σ α :=
  let events := (w.store bus).names
  (events, w.record (.names bus events))

/-- Begins a publication: the listeners that want a single delivery leave before it. The bus
stays in use until the publication is concluded. -/
def beginPublication (w : World σ α) (bus : BusId) (event : String) (payload : α) :
    World σ α :=
  (w.record (.publish bus event payload)).update bus fun s ↦ (s.dropOnce event).acquire

def concludePublication (w : World σ α) (bus : BusId) (publication invoked : Nat) :
    World σ α :=
  (w.record (.conclude publication invoked)).update bus Store.release

end World

end AgentMarkup.Bus
