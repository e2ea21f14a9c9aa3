/-!
What an operation reports about itself while it runs. Reports are data: every operation
that reports has a list of entries beside its result.
-/

set_option autoImplicit false
set_option relaxedAutoImplicit false

namespace AgentMarkup

inductive Severity where
  | debug
  | info
  | warn
  | error
deriving DecidableEq

def Severity.label : Severity → String
  | .debug => "DEBUG"
  | .info => "INFO"
  | .warn => "WARN"
  | .error => "ERROR"

structure LogEntry where
  severity : Severity
  message : String
deriving DecidableEq

def LogEntry.line (e : LogEntry) : String :=
  e.severity.label ++ " " ++ e.message

end AgentMarkup
