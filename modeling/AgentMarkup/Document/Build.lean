import AgentMarkup.Diagnostic
import AgentMarkup.Document.Node
import AgentMarkup.Log
import AgentMarkup.Token.Basic

/-!
Trees from tokens. The builder keeps the open elements on a stack, innermost first. A
closing tag closes the innermost element whatever its name; closing tags that do not
fit, or that find nothing open, and elements never closed are noted and not refused.
Only nesting beyond the limit is refused.
-/

set_option autoImplicit false
set_option relaxedAutoImplicit false

namespace AgentMarkup

/-- A fault of nesting that the builder repaired. -/
inductive Issue where
  | mismatchedClose (expected found : String) (position : Nat)
  | unexpectedClose (found : String) (position : Nat)
  | unclosed (kind : String) (position : Nat)
deriving DecidableEq

namespace Issue

def position : Issue → Nat
  | .mismatchedClose _ _ position => position
  | .unexpectedClose _ position => position
  | .unclosed _ position => position

def message : Issue → String
  | .mismatchedClose expected found _ =>
    s!"mismatched closing tag: expected </{expected}>, found </{found}>"
  | .unexpectedClose found _ => s!"unexpected closing tag </{found}>"
  | .unclosed kind _ => s!"unclosed element <{kind}>"

def diagnostic (i : Issue) : Diagnostic :=
  .atPosition i.message i.position

def logEntry (i : Issue) : LogEntry :=
  ⟨.debug, s!"absorbed structure issue: {i.message}"⟩

end Issue

/-- The first element that would stand deeper than the limit. -/
structure DepthExceeded where
  kind : String
  limit : Nat
  position : Nat
deriving DecidableEq

namespace DepthExceeded

def message (e : DepthExceeded) : String :=
  s!"maximum nesting depth of {e.limit} exceeded at <{e.kind}>"

def diagnostic (e : DepthExceeded) : Diagnostic :=
  .atPosition e.message e.position

end DepthExceeded

/-- A tree and the faults repaired on the way, in the order they were met. -/
structure Built where
  root : Node
  issues : List Issue

namespace Built

def log (b : Built) : List LogEntry :=
  b.issues.map Issue.logEntry

end Built

namespace Document

def defaultMaxDepth : Nat := 1024

/-- Attributes that directly follow a tag: each name with the value after it, if a
value is there. The last of equal names stands. -/
def takeAttributes (found : Table String) : List Token → Table String × List Token
  | ⟨.attrName, name, _⟩ :: ⟨.attrValue, value, _⟩ :: rest =>
    takeAttributes (found.insert name value) rest
  | ⟨.attrName, name, _⟩ :: rest => takeAttributes (found.insert name "") rest
  | rest => (found, rest)

/-- Whether the attributes that follow a tag end in its own closing mark. -/
def isSelfClosed (rest : List Token) : Bool :=
  match (takeAttributes .empty rest).2 with
  | ⟨.selfClose, _, _⟩ :: _ => true
  | _ => false

/-- An element still open, with its children so far, newest first. -/
structure Frame where
  kind : String
  attributes : Table String
  position : Nat
  children : List Node

namespace Frame

def close (f : Frame) : Node :=
  .element f.kind f.attributes f.children.reverse f.position

end Frame

/-- The open elements, innermost first, the finished nodes outside all of them and the
issues, both newest first. -/
structure BuildState where
  frames : List Frame
  finished : List Node
  issues : List Issue

namespace BuildState

def start : BuildState := ⟨[], [], []⟩

/-- Puts a node into the innermost open element. -/
def append (s : BuildState) (n : Node) : BuildState :=
  match s.frames with
  | [] => { s with finished := n :: s.finished }
  | f :: frames => { s with frames := { f with children := n :: f.children } :: frames }

def note (s : BuildState) (i : Issue) : BuildState :=
  { s with issues := i :: s.issues }

/-- Opens an element, or adds it whole if it closes itself. -/
def openTag (limit : Nat) (s : BuildState) (kind : String) (position : Nat)
    (rest : List Token) : Except DepthExceeded BuildState :=
  if limit ≤ s.frames.length then .error ⟨kind, limit, position⟩
  else
    let attributes := (takeAttributes .empty rest).1
    if isSelfClosed rest then .ok (s.append (.element kind attributes [] position))
    else .ok { s with frames := ⟨kind, attributes, position, []⟩ :: s.frames }

/-- Closes the innermost element, whatever its kind. -/
def closeTag (s : BuildState) (found : String) (position : Nat) : BuildState :=
  match s.frames with
  | [] => s.note (.unexpectedClose found position)
  | f :: frames =>
    let closed := { s with frames }.append f.close
    if f.kind = found then closed else closed.note (.mismatchedClose f.kind found position)

/-- What one token does, given the tokens after it. -/
def step (limit : Nat) (s : BuildState) (t : Token) (rest : List Token) :
    Except DepthExceeded BuildState :=
  match t.kind with
  | .tagOpen => s.openTag limit t.value t.position rest
  | .tagClose => .ok (s.closeTag t.value t.position)
  | .text => .ok (s.append (.leaf t.value t.position))
  | .attrName | .attrValue | .selfClose | .tagEnd => .ok s

def run (limit : Nat) (s : BuildState) : List Token → Except DepthExceeded BuildState
  | [] => .ok s
  | t :: rest =>
    match s.step limit t rest with
    | .ok next => run limit next rest
    | .error e => .error e

/-- Closes the open elements from the innermost out; `inner` is what the element
before, now closed, leaves to the next one. -/
def collapse (inner finished : List Node) : List Frame → List Node
  | [] => inner ++ finished
  | f :: frames => collapse [{ f with children := inner ++ f.children }.close] finished frames

/-- The tree once the input is over. Elements still open are noted, innermost first. -/
def finish (s : BuildState) : Built :=
  ⟨.document (collapse [] s.finished s.frames).reverse,
    s.issues.reverse ++ s.frames.map fun f ↦ .unclosed f.kind f.position⟩

end BuildState

/-- Builds a tree with at most this many elements inside one another, and one at least. -/
def build (maxDepth : Nat) (tokens : List Token) : Except DepthExceeded Built :=
  (BuildState.start.run (max maxDepth 1) tokens).map BuildState.finish

end Document

end AgentMarkup
