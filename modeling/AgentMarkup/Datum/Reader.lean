import AgentMarkup.Datum.Decode

/-!
Data from a row of marks. Text formats differ in their marks and in a few liberties;
what the marks mean is the same for all of them. The reader keeps the collections that
are still open on a stack; one that closes too deep in it is void.
-/

set_option autoImplicit false
set_option relaxedAutoImplicit false

namespace AgentMarkup

inductive Mark where
  | openRecord
  | closeRecord
  | openList
  | closeList
  | comma
  | colon
  | leaf (d : Datum)

inductive ReadFault where
  | unexpectedEnd
  | unexpected (what : String)
  | badNumber
  | badEscape
  | valueless
  | undecodable (fault : DecodeFault)
deriving DecidableEq

def ReadFault.message : ReadFault → String
  | .unexpectedEnd => "malformed data: unexpected end"
  | .unexpected what => s!"malformed data: unexpected {what}"
  | .badNumber => "malformed data: bad number"
  | .badEscape => "malformed data: bad escape"
  | .valueless => "malformed data: a part without value"
  | .undecodable fault => s!"malformed data: {fault.message}"

/-- The liberties of a text format. -/
structure Dialect where
  /-- A comma may stand before a closing bracket. -/
  trailingComma : Bool
  /-- A value in a record may be left out, with its colon or without. -/
  omittedValues : Bool
  /-- A key and its value may stand in a list, as a record of their own. -/
  pairsInLists : Bool
  /-- Lists may stand for the fields of a record. -/
  positional : Bool
  /-- Collections inside one another that are not void. -/
  depth : Nat

namespace Datum

/-- A collection that is still open, newest member first. -/
inductive Frame where
  | list (items : List Datum)
  | record (members : List (Option String × Datum))
  /-- A record whose last key waits for its value. -/
  | entry (members : List (Option String × Datum)) (key : Option String)
  /-- A key in a list that waits for its value. -/
  | pair (key : Option String)

/-- What may come next. -/
inductive Phase where
  | value
  | valueOrClose
  | key
  | keyOrClose
  | colon (key : Option String)
  | comma
  | finished (d : Datum)

structure ReaderState where
  stack : List Frame
  phase : Phase

namespace ReaderState

def start : ReaderState := ⟨[], .value⟩

/-- A collection as it counts inside those on the stack. -/
def within (dialect : Dialect) (d : Datum) (stack : List Frame) : Datum :=
  if stack.length < dialect.depth then d else .void

/-- Puts a complete value where it belongs. -/
def complete (dialect : Dialect) (d : Datum) : List Frame → Except ReadFault ReaderState
  | [] => .ok ⟨[], .finished d⟩
  | .list items :: stack => .ok ⟨.list (d :: items) :: stack, .comma⟩
  | .entry members key :: stack => .ok ⟨.record ((key, d) :: members) :: stack, .comma⟩
  | .pair key :: stack => complete dialect (within dialect (ofMembers [(key, d)]) stack) stack
  | .record _ :: _ => .error (.unexpected "value")

def beginValue (dialect : Dialect) (stack : List Frame) : Mark → Except ReadFault ReaderState
  | .leaf d => complete dialect d stack
  | .openList => .ok ⟨.list [] :: stack, .valueOrClose⟩
  | .openRecord => .ok ⟨.record [] :: stack, .keyOrClose⟩
  | .closeList => .error (.unexpected "bracket")
  | .closeRecord => .error (.unexpected "brace")
  | .comma => .error (.unexpected "comma")
  | .colon => .error (.unexpected "colon")

def close (dialect : Dialect) (mark : Mark) : List Frame → Except ReadFault ReaderState
  | .list items :: stack =>
    match mark with
    | .closeList =>
      complete dialect (within dialect (.list dialect.positional items.reverse) stack) stack
    | _ => .error (.unexpected "mark in a list")
  | .record members :: stack =>
    match mark with
    | .closeRecord => complete dialect (within dialect (ofMembers members.reverse) stack) stack
    | _ => .error (.unexpected "mark in a record")
  | _ => .error (.unexpected "closing mark")

/-- A key is a text, or void. -/
def keyOf : Datum → Except ReadFault (Option String)
  | .void => .ok none
  | d =>
    match d.asText with
    | .ok key => .ok (some key)
    | .error fault => .error (.undecodable fault)

def beginEntry (stack : List Frame) : Mark → Except ReadFault ReaderState
  | .leaf d => (keyOf d).map fun key ↦ ⟨stack, .colon key⟩
  | _ => .error (.unexpected "mark for a key")

/-- Takes the last item of a list as a key in it. -/
def beginPair (dialect : Dialect) (item : Datum) (items : List Datum) (stack : List Frame) :
    Except ReadFault ReaderState :=
  if dialect.pairsInLists then
    (keyOf item).map fun key ↦ ⟨.pair key :: .list items :: stack, .value⟩
  else .error (.unexpected "colon")

/-- A complete member is followed by a comma or by the end of its collection. -/
def endMember (dialect : Dialect) (stack : List Frame) (mark : Mark) :
    Except ReadFault ReaderState :=
  match mark, stack with
  | .comma, .list _ :: _ =>
    .ok ⟨stack, if dialect.trailingComma then .valueOrClose else .value⟩
  | .comma, .record _ :: _ =>
    .ok ⟨stack, if dialect.trailingComma then .keyOrClose else .key⟩
  | mark, stack => close dialect mark stack

/-- What follows a key that has no value. -/
def endBareKey (dialect : Dialect) (members : List (Option String × Datum))
    (key : Option String) (stack : List Frame) (mark : Mark) : Except ReadFault ReaderState :=
  if dialect.omittedValues then
    endMember dialect (.record ((key, blank) :: members) :: stack) mark
  else .error (.unexpected "mark after a key")

/-- What follows a key in a list that has no value. -/
def endBarePair (dialect : Dialect) (key : Option String) (stack : List Frame) (mark : Mark) :
    Except ReadFault ReaderState := do
  let state ← complete dialect blank (.pair key :: stack)
  endMember dialect state.stack mark

def step (dialect : Dialect) (state : ReaderState) (mark : Mark) :
    Except ReadFault ReaderState :=
  match state.phase, mark, state.stack with
  | .value, .comma, .entry members key :: stack =>
    endBareKey dialect members key stack .comma
  | .value, .closeRecord, .entry members key :: stack =>
    endBareKey dialect members key stack .closeRecord
  | .value, .comma, .pair key :: stack => endBarePair dialect key stack .comma
  | .value, .closeList, .pair key :: stack => endBarePair dialect key stack .closeList
  | .value, mark, stack => beginValue dialect stack mark
  | .valueOrClose, .closeList, stack => close dialect .closeList stack
  | .valueOrClose, mark, stack => beginValue dialect stack mark
  | .key, mark, stack => beginEntry stack mark
  | .keyOrClose, .closeRecord, stack => close dialect .closeRecord stack
  | .keyOrClose, mark, stack => beginEntry stack mark
  | .colon key, .colon, .record members :: stack => .ok ⟨.entry members key :: stack, .value⟩
  | .colon key, mark, .record members :: stack => endBareKey dialect members key stack mark
  | .colon _, _, _ => .error (.unexpected "mark after a key")
  | .comma, .colon, .list (item :: items) :: stack => beginPair dialect item items stack
  | .comma, mark, stack => endMember dialect stack mark
  | .finished _, _, _ => .error (.unexpected "text after the value")

end ReaderState

/-- The one value that the marks make up. -/
def ofMarks (dialect : Dialect) (marks : List Mark) : Except ReadFault Datum := do
  match (← marks.foldlM (ReaderState.step dialect) ReaderState.start).phase with
  | .finished d => .ok d
  | _ => .error .unexpectedEnd

end Datum

end AgentMarkup
