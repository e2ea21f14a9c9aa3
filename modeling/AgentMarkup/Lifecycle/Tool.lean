import AgentMarkup.Lifecycle.Basic

/-!
The lifecycle of a tool invocation. A failed invocation is tried again in two steps, and
one that is not yet complete may be cancelled for good.
-/

set_option autoImplicit false
set_option relaxedAutoImplicit false

namespace AgentMarkup.Lifecycle.Tool

inductive State where
  | pending
  | running
  | complete
  | skipped
  | error
  | retry
  | cancelled
deriving DecidableEq

inductive Event where
  | start
  | skip
  | cancel
  | complete
  | error
  | retry
deriving DecidableEq

namespace State

def label : State → String
  | .pending => "pending"
  | .running => "running"
  | .complete => "complete"
  | .skipped => "skipped"
  | .error => "error"
  | .retry => "retry"
  | .cancelled => "cancelled"

instance : Labelled State :=
  ⟨[.pending, .running, .complete, .skipped, .error, .retry, .cancelled], label⟩

end State

namespace Event

def label : Event → String
  | .start => "start"
  | .skip => "skip"
  | .cancel => "cancel"
  | .complete => "complete"
  | .error => "error"
  | .retry => "retry"

instance : Labelled Event :=
  ⟨[.start, .skip, .cancel, .complete, .error, .retry], label⟩

end Event

def next : State → Event → Option State
  | .pending, .start => some .running
  | .pending, .skip => some .skipped
  | .pending, .cancel => some .cancelled
  | .running, .complete => some .complete
  | .running, .error => some .error
  | .running, .cancel => some .cancelled
  | .error, .retry => some .retry
  | .error, .cancel => some .cancelled
  | .retry, .retry => some .running
  | .retry, .cancel => some .cancelled
  | .complete, .start => some .running
  | _, _ => none

end Tool

def tool : Lifecycle Tool.State Tool.Event :=
  ⟨"tool", .pending, Tool.next⟩

end AgentMarkup.Lifecycle
