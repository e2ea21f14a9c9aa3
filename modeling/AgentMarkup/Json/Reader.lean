import AgentMarkup.Json.Number

/-!
JSON texts. A text is first cut into marks, and the marks are then read with no
liberties: no trailing comma, no key without a value. Numbers too large for a double,
texts with half of a pair of code units, and collections inside 127 others are void.
-/

set_option autoImplicit false
set_option relaxedAutoImplicit false

namespace AgentMarkup.Json

def dialect : Dialect := ⟨false, false, false, true, 127⟩

def isSpace (c : Char) : Bool :=
  c = ' ' || c = '\t' || c = '\n' || c = '\r'

def hexDigit? (c : Char) : Option Nat :=
  if c.isDigit then some (c.toNat - '0'.toNat)
  else if 'a' ≤ c && c ≤ 'f' then some (c.toNat - 'a'.toNat + 10)
  else if 'A' ≤ c && c ≤ 'F' then some (c.toNat - 'A'.toNat + 10)
  else none

/-- Reads so many hexadecimal digits. -/
def readHex : Nat → Nat → List Char → Option (Nat × List Char)
  | 0, value, cs => some (value, cs)
  | _ + 1, _, [] => none
  | count + 1, value, c :: cs => do readHex count (16 * value + (← hexDigit? c)) cs

/-- The second half of a character outside the basic plane, given the first. -/
def readLowSurrogate (high : Nat) : List Char → Option (Char × List Char)
  | '\\' :: 'u' :: cs => do
    let (low, cs) ← readHex 4 0 cs
    if 0xdc00 ≤ low ∧ low < 0xe000 then
      some (Char.ofNat (0x10000 + (high - 0xd800) * 0x400 + (low - 0xdc00)), cs)
    else none
  | _ => none

/-- A code unit in four hexadecimal digits. Half a pair that is not followed by the
other half is no character. -/
def readCodeUnit (cs : List Char) : Option (Option Char × List Char) := do
  let (unit, cs) ← readHex 4 0 cs
  if 0xd800 ≤ unit ∧ unit < 0xdc00 then
    match readLowSurrogate unit cs with
    | some (c, cs) => some (some c, cs)
    | none => some (none, cs)
  else if 0xdc00 ≤ unit ∧ unit < 0xe000 then some (none, cs)
  else some (some (Char.ofNat unit), cs)

def shortEscape? (c : Char) : Option Char :=
  if c = '"' ∨ c = '\\' ∨ c = '/' then some c
  else if c = 'b' then some '\x08'
  else if c = 'f' then some '\x0c'
  else if c = 'n' then some '\n'
  else if c = 'r' then some '\r'
  else if c = 't' then some '\t'
  else none

/-- What a backslash and the characters after it stand for. -/
def readEscape : List Char → Option (Option Char × List Char)
  | [] => none
  | c :: cs =>
    if c = 'u' then readCodeUnit cs else (shortEscape? c).map fun e ↦ (some e, cs)

/-- The characters up to the closing quote, newest first, and the text after it. The
argument `fuel` bounds the characters read; the length of the text is enough. -/
def readQuoted : Nat → List (Option Char) → List Char →
    Except ReadFault (List (Option Char) × List Char)
  | _, _, [] => .error .unexpectedEnd
  | 0, _, _ :: _ => .error .unexpectedEnd
  | fuel + 1, done, c :: cs =>
    if c = '"' then .ok (done, cs)
    else if c = '\\' then
      match readEscape cs with
      | some (e, cs) => readQuoted fuel (e :: done) cs
      | none => .error .badEscape
    else if c.toNat < 0x20 then .error (.unexpected "control character")
    else readQuoted fuel (some c :: done) cs

/-- A text after its opening quote; without one of its characters it is void. -/
def readText (cs : List Char) : Except ReadFault (Datum × List Char) := do
  let (done, rest) ← readQuoted cs.length [] cs
  match done.reverse.mapM id with
  | some text => return (.scalar (.str (String.ofList text)), rest)
  | none => return (.void, rest)

/-- The text after a word that must stand here. -/
def dropWord (word : List Char) (cs : List Char) : Except ReadFault (List Char) :=
  if word.isPrefixOf cs then .ok (cs.drop word.length) else .error (.unexpected "character")

def readNumber (cs : List Char) : Except ReadFault (Datum × List Char) := do
  let (text, rest) ← NumberText.read cs
  match text.number? with
  | some value => return (.scalar (.num value), rest)
  | none => return (.void, rest)

/-- The mark at the start of a text that is not empty and starts with no space. -/
def readMark (c : Char) (cs : List Char) : Except ReadFault (Mark × List Char) :=
  if c = '\x7b' then .ok (.openRecord, cs)
  else if c = '\x7d' then .ok (.closeRecord, cs)
  else if c = '[' then .ok (.openList, cs)
  else if c = ']' then .ok (.closeList, cs)
  else if c = ',' then .ok (.comma, cs)
  else if c = ':' then .ok (.colon, cs)
  else if c = '"' then (readText cs).map fun r ↦ (.leaf r.1, r.2)
  else if c = 'n' then (dropWord "ull".toList cs).map fun r ↦ (.leaf (.scalar .null), r)
  else if c = 't' then (dropWord "rue".toList cs).map fun r ↦ (.leaf (.scalar (.bool true)), r)
  else if c = 'f' then (dropWord "alse".toList cs).map fun r ↦ (.leaf (.scalar (.bool false)), r)
  else if c = '-' ∨ c.isDigit then
    (readNumber (c :: cs)).map fun r ↦ (.leaf r.1, r.2)
  else .error (.unexpected "character")

/-- The marks of a text, newest first. Each takes a character, so the length of the
text is enough `fuel`. -/
def readMarks : Nat → List Mark → List Char → Except ReadFault (List Mark)
  | _, done, [] => .ok done
  | 0, _, _ :: _ => .error .unexpectedEnd
  | fuel + 1, done, c :: cs =>
    if isSpace c then readMarks fuel done cs
    else
      match readMark c cs with
      | .ok (mark, cs) => readMarks fuel (mark :: done) cs
      | .error fault => .error fault

/-- The data that a JSON text states. -/
def readDatum (text : String) : Except ReadFault Datum := do
  let cs := text.toList
  Datum.ofMarks dialect (← readMarks cs.length [] cs).reverse

/-- The value of a JSON text without void parts; of equal keys in an object the last
stands. -/
def read (text : String) : Except ReadFault Json := do
  match (← readDatum text).toJson? with
  | some value => return value
  | none => throw .valueless

end AgentMarkup.Json
