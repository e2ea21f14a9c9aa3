import AgentMarkup.Lifecycle.Approve
import AgentMarkup.Lifecycle.Stream
import AgentMarkup.Lifecycle.Tool
import AgentMarkup.Text.Quoted

/-!
The machines that are there without being defined, one for each lifecycle.
-/

set_option autoImplicit false
set_option relaxedAutoImplicit false

namespace AgentMarkup

/-- A kind that no lifecycle has. -/
structure UnknownMachine where
  kind : String
deriving DecidableEq

namespace UnknownMachine

def message (e : UnknownMachine) : String :=
  s!"unknown state machine: {e.kind}"

def inspect (e : UnknownMachine) : String :=
  Text.quoteRecord "UnknownMachine" [("kind", Text.quote e.kind)]

end UnknownMachine

namespace Machine

/-- The configuration of each lifecycle under its kind. -/
def builtins : Table Config :=
  .ofList ([Lifecycle.stream.config, Lifecycle.tool.config, Lifecycle.approve.config].map
    fun config ↦ (config.name, config))

def builtin? (kind : String) : Except UnknownMachine Config :=
  match builtins.get? kind with
  | some config => .ok config
  | none => .error ⟨kind⟩

end Machine

end AgentMarkup
