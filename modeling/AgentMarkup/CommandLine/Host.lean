import AgentMarkup.Datum.Reader
import AgentMarkup.Text.Quoted

/-!
What the command line needs from the system it runs on. A host is a record of actions
in a monad, so the same commands run on a file system and on files that are plain data.
-/

set_option autoImplicit false
set_option relaxedAutoImplicit false

namespace AgentMarkup.CommandLine

/-- Why a text cannot be read: an error of the system, or a complaint about the text. -/
inductive ReadFailure where
  | system (code : Nat) (kind text : String)
  | content (kind text : String)
deriving DecidableEq

namespace ReadFailure

def notFound : ReadFailure := .system 2 "NotFound" "No such file or directory"

def permissionDenied : ReadFailure := .system 13 "PermissionDenied" "Permission denied"

def notDirectory : ReadFailure := .system 20 "NotADirectory" "Not a directory"

def isDirectory : ReadFailure := .system 21 "IsADirectory" "Is a directory"

def invalidText : ReadFailure := .content "InvalidData" "stream did not contain valid UTF-8"

def message : ReadFailure → String
  | .system code _ text => s!"{text} (os error {code})"
  | .content _ text => text

def inspect : ReadFailure → String
  | .system code kind text =>
    Text.quoteRecord "Os"
      [("code", toString code), ("kind", kind), ("message", Text.quote text)]
  | .content kind text =>
    Text.quoteRecord "Error" [("kind", kind), ("message", Text.quote text)]

end ReadFailure

structure Host (m : Type → Type) where
  fileText (path : String) : m (Except ReadFailure String)
  inputText : m (Except ReadFailure String)

/-- The variables that are set. -/
abbrev Environment := Table String

/-- Why a file gives no value. -/
inductive LoadFault where
  | unreadable (path : String) (failure : ReadFailure)
  | unparsable (path : String) (fault : ReadFault)
  | invalid (reason : String)
deriving DecidableEq

namespace LoadFault

def message : LoadFault → String
  | .unreadable path failure => s!"failed to read '{path}': {failure.message}"
  | .unparsable path fault => s!"failed to parse '{path}': {fault.message}"
  | .invalid reason => s!"configuration validation failed: {reason}"

end LoadFault

/-- Takes the text of a file as a value of a type. -/
def decodeText {α : Type} (path : String) (read : String → Except ReadFault Datum)
    (decode : Datum → Decoded α) (text : String) : Except LoadFault α :=
  match read text with
  | .error fault => .error (.unparsable path fault)
  | .ok d => (decode d).mapError fun fault ↦ .unparsable path (.undecodable fault)

def Host.load {m : Type → Type} [Monad m] {α : Type} (host : Host m) (path : String)
    (read : String → Except ReadFault Datum) (decode : Datum → Decoded α) :
    m (Except LoadFault α) := do
  match ← host.fileText path with
  | .error failure => return .error (.unreadable path failure)
  | .ok text => return decodeText path read decode text

end AgentMarkup.CommandLine
