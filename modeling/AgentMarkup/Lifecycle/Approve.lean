import AgentMarkup.Lifecycle.Basic

/-!
The lifecycle of an approval request. A request is decided after it was shown, expires
if nobody decides it, and is executed only if it was approved.
-/

set_option autoImplicit false
set_option relaxedAutoImplicit false

namespace AgentMarkup.Lifecycle.Approve

inductive State where
  | pending
  | showing
  | approved
  | denied
  | expired
  | executing
  | complete
deriving DecidableEq

inductive Event where
  | present
  | approve
  | deny
  | expire
  | execute
  | complete
deriving DecidableEq

namespace State

def label : State → String
  | .pending => "pending"
  | .showing => "showing"
  | .approved => "approved"
  | .denied => "denied"
  | .expired => "expired"
  | .executing => "executing"
  | .complete => "complete"

instance : Labelled State :=
  ⟨[.pending, .showing, .approved, .denied, .expired, .executing, .complete], label⟩

end State

namespace Event

def label : Event → String
  | .present => "show"
  | .approve => "approve"
  | .deny => "deny"
  | .expire => "expire"
  | .execute => "execute"
  | .complete => "complete"

instance : Labelled Event :=
  ⟨[.present, .approve, .deny, .expire, .execute, .complete], label⟩

end Event

def next : State → Event → Option State
  | .pending, .present => some .showing
  | .pending, .expire => some .expired
  | .showing, .approve => some .approved
  | .showing, .deny => some .denied
  | .showing, .expire => some .expired
  | .approved, .execute => some .executing
  | .executing, .complete => some .complete
  | _, _ => none

end Approve

def approve : Lifecycle Approve.State Approve.Event :=
  ⟨"approve", .pending, Approve.next⟩

end AgentMarkup.Lifecycle
