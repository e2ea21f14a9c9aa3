import AgentMarkup.Flow.Text

/-!
Data in flow notation: brackets, braces and quotes as in JSON, with comments, unquoted
scalars, a comma before a closing bracket and values left out. A key and its colon
stand on one line, at most 1024 bytes apart. Collections inside 128 others are void. Lines
of three hyphens and of three points may bound the whole.
-/

set_option autoImplicit false
set_option relaxedAutoImplicit false

namespace AgentMarkup.Flow

def dialect : Dialect := ⟨true, true, true, false, 128⟩

/-- Characters that may occur in a text at all. -/
def isAllowed (c : Char) : Bool :=
  let n := c.toNat
  n == 0x09 || n == 0x0a || n == 0x0d || (0x20 ≤ n && n ≤ 0x7e) || n == 0x85 ||
    (0xa0 ≤ n && n ≤ 0xfffd) || 0x10000 ≤ n

/-- Whether an unquoted scalar may begin with these characters. -/
def beginsPlain (c : Char) (rest : List Char) : Bool :=
  if c = '-' then !(rest.head?.map isGap).getD true
  else !isBracketOrComma c && !"?:#&*!|>'\"%@`".toList.contains c

def plainLeaf (spelling : String) : Datum :=
  if spellsNull spelling then .absent spelling else .plain spelling (scalarValue spelling)

/-- A place in a line. -/
inductive Column where
  /-- The first one. -/
  | first
  /-- Nothing but spaces stands before it. -/
  | indented
  | inner
deriving DecidableEq

/-- How far a document has come, by the lines that bound it. -/
inductive Extent where
  | unbounded
  | begun
  | ended
deriving DecidableEq

/-- What has been read so far, newest mark first. -/
structure Progress where
  marks : List Mark
  /-- Collections that are open. -/
  depth : Nat
  column : Column
  extent : Extent
  /-- The text from the scalar on that was read last, if it may still be a key. -/
  key : Option (List Char)

namespace Progress

def start : Progress := ⟨[], 0, .first, .unbounded, none⟩

def add (p : Progress) (mark : Mark) (depth : Nat) : Progress :=
  ⟨mark :: p.marks, depth, .inner, p.extent, none⟩

/-- Adds a scalar that begins at this text. -/
def addLeaf (p : Progress) (d : Datum) (beginning : List Char) : Progress :=
  ⟨.leaf d :: p.marks, p.depth, .inner, p.extent, some beginning⟩

def endLine (p : Progress) : Progress :=
  { p with column := .first }

/-- Passes over a space, a tab or a byte order mark. -/
def skip (p : Progress) : Progress :=
  { p with column := if p.column = .first then .indented else p.column }

/-- Whether a tab may stand here: outside all collections a line does not begin with one. -/
def allowsTab (p : Progress) : Bool :=
  !(p.depth = 0 && p.column ≠ .inner)

/-- Takes a line that bounds the document. Three hyphens begin it, before anything else;
three points end it, once it has begun. -/
def bound (p : Progress) (c : Char) : Except ReadFault Progress :=
  if p.depth ≠ 0 then .error (.unexpected "end of document")
  else if c = '-' then
    if p.extent = .unbounded ∧ p.marks.isEmpty then
      .ok { p with column := .inner, extent := .begun }
    else .error (.unexpected "second document")
  else if p.extent = .unbounded ∧ p.marks.isEmpty then .error (.unexpected "end of document")
  else .ok { p with column := .inner, extent := .ended }

end Progress

/-- Whether a scalar from `beginning` to `colon` may be the key of that colon. -/
def isKey (beginning colon : List Char) : Bool :=
  let key := beginning.take (beginning.length - colon.length)
  key.foldl (fun size c ↦ size + c.utf8Size) 0 ≤ 1024 && !key.any isBreak

def readColon (p : Progress) (cs : List Char) : Except ReadFault Progress :=
  match p.key with
  | some beginning =>
    if isKey beginning cs then .ok (p.add .colon p.depth) else .error (.unexpected "colon")
  | none => .error (.unexpected "colon")

/-- Reads what begins with a character that is neither a gap nor a comment. -/
def readMark (p : Progress) (c : Char) (cs : List Char) :
    Except ReadFault (Progress × List Char) :=
  if p.extent = .ended then .error (.unexpected "text after the end")
  else if c = '\x7b' then .ok (p.add .openRecord (p.depth + 1), cs)
  else if c = '\x7d' then .ok (p.add .closeRecord (p.depth - 1), cs)
  else if c = '[' then .ok (p.add .openList (p.depth + 1), cs)
  else if c = ']' then .ok (p.add .closeList (p.depth - 1), cs)
  else if c = ',' then .ok (p.add .comma p.depth, cs)
  else if c = ':' then (readColon p (c :: cs)).map (·, cs)
  else if c = '"' then
    (readDouble cs.length [] cs).map fun (done, rest) ↦
      (p.addLeaf (.scalar (.str (String.ofList done.reverse))) (c :: cs), rest)
  else if c = '\'' then
    (readSingle cs.length [] cs).map fun (done, rest) ↦
      (p.addLeaf (.scalar (.str (String.ofList done.reverse))) (c :: cs), rest)
  else if p.depth = 0 ∨ !beginsPlain c cs then .error (.unexpected "character")
  else
    (readPlain (cs.length + 1) [] (c :: cs)).map fun (done, rest) ↦
      (p.addLeaf (plainLeaf (String.ofList done.reverse)) (c :: cs), rest)

/-- The marks of a text, newest first. A byte order mark may begin a line. -/
def readMarks : Nat → Progress → List Char → Except ReadFault (List Mark)
  | _, p, [] => .ok p.marks
  | 0, _, _ :: _ => .error .unexpectedEnd
  | fuel + 1, p, c :: cs =>
    if isBreak c then readMarks fuel p.endLine cs
    else if c = ' ' ∨ (c = '\t' ∧ p.allowsTab) ∨ (c = '\ufeff' ∧ p.column = .first) then
      readMarks fuel p.skip cs
    else if c = '#' then readMarks fuel p (cs.dropWhile (!isBreak ·))
    else if p.column = .first ∧ boundsDocument (c :: cs) then
      match p.bound c with
      | .ok p => readMarks fuel p (cs.drop 2)
      | .error fault => .error fault
    else
      match readMark p c cs with
      | .ok (p, cs) => readMarks fuel p cs
      | .error fault => .error fault

/-- The data that a text states; a text without any states a blank. -/
def readDatum (text : String) : Except ReadFault Datum := do
  let cs := text.toList
  if cs.all isAllowed then
    match ← readMarks cs.length .start cs with
    | [] => return .blank
    | marks => Datum.ofMarks dialect marks.reverse
  else throw (.unexpected "control character")

end AgentMarkup.Flow
