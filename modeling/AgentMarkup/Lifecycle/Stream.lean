import AgentMarkup.Lifecycle.Basic

/-!
The lifecycle of a streamed response. Generation may be paused, may fail and be tried
again, and may start anew once it is complete.
-/

set_option autoImplicit false
set_option relaxedAutoImplicit false

namespace AgentMarkup.Lifecycle.Stream

inductive State where
  | idle
  | generating
  | paused
  | resuming
  | complete
  | error
deriving DecidableEq

inductive Event where
  | start
  | chunk
  | pause
  | resume
  | complete
  | error
  | retry
  | cancel
deriving DecidableEq

namespace State

def label : State → String
  | .idle => "idle"
  | .generating => "generating"
  | .paused => "paused"
  | .resuming => "resuming"
  | .complete => "complete"
  | .error => "error"

instance : Labelled State :=
  ⟨[.idle, .generating, .paused, .resuming, .complete, .error], label⟩

end State

namespace Event

def label : Event → String
  | .start => "start"
  | .chunk => "chunk"
  | .pause => "pause"
  | .resume => "resume"
  | .complete => "complete"
  | .error => "error"
  | .retry => "retry"
  | .cancel => "cancel"

instance : Labelled Event :=
  ⟨[.start, .chunk, .pause, .resume, .complete, .error, .retry, .cancel], label⟩

end Event

def next : State → Event → Option State
  | .idle, .start => some .generating
  | .generating, .chunk => some .generating
  | .generating, .pause => some .paused
  | .generating, .complete => some .complete
  | .generating, .error => some .error
  | .paused, .resume => some .resuming
  | .paused, .cancel => some .idle
  | .resuming, .resume => some .generating
  | .resuming, .error => some .error
  | .complete, .start => some .generating
  | .error, .retry => some .generating
  | .error, .cancel => some .idle
  | _, _ => none

end Stream

def stream : Lifecycle Stream.State Stream.Event :=
  ⟨"stream", .idle, Stream.next⟩

end AgentMarkup.Lifecycle
