import AgentMarkup.CommandLine.Host
import AgentMarkup.Extension.Basic
import AgentMarkup.Flow.Reader

/-!
Manifests: files that state an extension. The name of a file decides whether it is read
as JSON or in flow notation.
-/

set_option autoImplicit false
set_option relaxedAutoImplicit false

namespace AgentMarkup.CommandLine.Manifest

/-- The last component of a path, unless it leads upwards. -/
def fileName? (path : String) : Option String :=
  match ((path.splitOn "/").filter fun part ↦ part ≠ "" ∧ part ≠ ".").getLast? with
  | some ".." => none
  | name => name

/-- What follows the last point of a name; a point that begins the name does not count. -/
def suffix? (name : String) : Option String :=
  match (name.splitOn ".").reverse with
  | suffix :: stem :: rest => if stem = "" ∧ rest = [] then none else some suffix
  | _ => none

def isJson (path : String) : Bool :=
  ((fileName? path).bind suffix?).any fun suffix ↦ Text.lowercase suffix = "json"

def load {m : Type → Type} [Monad m] (host : Host m) (path : String) :
    m (Except LoadFault Extension) :=
  host.load path (if isJson path then Json.readDatum else Flow.readDatum) Extension.decode

end AgentMarkup.CommandLine.Manifest
