import AgentMarkup.Flow.Scalar

/-!
The three kinds of text in flow notation: in double quotes with escapes, in single
quotes, and unquoted. In all of them a run of blanks that contains line breaks is
folded: a single break becomes a space, and of several all but the first are kept.
-/

set_option autoImplicit false
set_option relaxedAutoImplicit false

namespace AgentMarkup.Flow

def isSpace (c : Char) : Bool :=
  c = ' ' || c = '\t'

def isBreak (c : Char) : Bool :=
  c = '\n' || c = '\r' || c = '\u0085' || c = '\u2028' || c = '\u2029'

def isGap (c : Char) : Bool :=
  isSpace c || isBreak c

/-- Characters that have a meaning between scalars. -/
def isBracketOrComma (c : Char) : Bool :=
  c = ',' || c = '[' || c = ']' || c = '\x7b' || c = '\x7d'

/-- The breaks of a gap as they are kept; only the two separators keep their form. -/
def breaks : List Char → List Char
  | [] => []
  | '\r' :: '\n' :: rest => '\n' :: breaks rest
  | c :: rest =>
    if c = '\u2028' ∨ c = '\u2029' then c :: breaks rest
    else if isBreak c then '\n' :: breaks rest
    else breaks rest

/-- What a gap inside a text stands for. -/
def fold (gap : List Char) : List Char :=
  match breaks gap with
  | [] => gap
  | ['\n'] => [' ']
  | '\n' :: kept => kept
  | kept => kept

def shortEscape? (c : Char) : Option Char :=
  if c = '0' then some '\x00'
  else if c = 'a' then some '\x07'
  else if c = 'b' then some '\x08'
  else if c = 't' ∨ c = '\t' then some '\t'
  else if c = 'n' then some '\n'
  else if c = 'v' then some '\x0b'
  else if c = 'f' then some '\x0c'
  else if c = 'r' then some '\r'
  else if c = 'e' then some '\x1b'
  else if c = ' ' ∨ c = '"' ∨ c = '/' ∨ c = '\\' then some c
  else if c = 'N' then some '\u0085'
  else if c = '_' then some '\u00a0'
  else if c = 'L' then some '\u2028'
  else if c = 'P' then some '\u2029'
  else none

/-- Digits of the escapes that give a code point. -/
def escapeWidth? (c : Char) : Option Nat :=
  if c = 'x' then some 2 else if c = 'u' then some 4 else if c = 'U' then some 8 else none

/-- The character of a code point; halves of pairs are refused. -/
def charOf? (n : Nat) : Option Char :=
  if h : n.isValidChar then some (Char.ofNatAux n h) else none

/-- What a backslash and the characters after it stand for. -/
def readEscape : List Char → Option (Char × List Char)
  | [] => none
  | c :: cs =>
    match escapeWidth? c with
    | some width => do
      let (n, cs) ← Json.readHex width 0 cs
      return (← charOf? n, cs)
    | none => (shortEscape? c).map (·, cs)

/-- Whether a line that begins like this bounds a document: three hyphens or three
points, and then a gap or the end. -/
def boundsDocument : List Char → Bool
  | '-' :: '-' :: '-' :: rest => (rest.head?.map isGap).getD true
  | '.' :: '.' :: '.' :: rest => (rest.head?.map isGap).getD true
  | _ => false

/-- Whether a gap leads to such a line. -/
def leadsToBound (gap rest : List Char) : Bool :=
  gap.getLast?.any isBreak && boundsDocument rest

/-- The gap that begins with these characters, and the text after it, which must not be
a bound of the document. -/
def readGap (cs : List Char) : Except ReadFault (List Char × List Char) :=
  let (gap, rest) := (cs.takeWhile isGap, cs.dropWhile isGap)
  if leadsToBound gap rest then .error (.unexpected "end of document") else .ok (gap, rest)

/-- The characters up to the closing quote, newest first, and the text after it. A
backslash before a break takes the break away. The length of the text is enough
`fuel`, here and below. -/
def readDouble : Nat → List Char → List Char → Except ReadFault (List Char × List Char)
  | _, _, [] => .error .unexpectedEnd
  | 0, _, _ :: _ => .error .unexpectedEnd
  | fuel + 1, done, c :: cs =>
    if c = '"' then .ok (done, cs)
    else if c = '\\' then
      if (cs.head?.map isBreak).getD false then
        match readGap cs with
        | .ok (gap, rest) => readDouble fuel (((breaks gap).drop 1).reverse ++ done) rest
        | .error fault => .error fault
      else
        match readEscape cs with
        | some (e, cs) => readDouble fuel (e :: done) cs
        | none => .error .badEscape
    else if isGap c then
      match readGap (c :: cs) with
      | .ok (gap, rest) => readDouble fuel ((fold gap).reverse ++ done) rest
      | .error fault => .error fault
    else readDouble fuel (c :: done) cs

/-- The same for single quotes, in which a quote is written twice. -/
def readSingle : Nat → List Char → List Char → Except ReadFault (List Char × List Char)
  | _, _, [] => .error .unexpectedEnd
  | 0, _, _ :: _ => .error .unexpectedEnd
  | fuel + 1, done, c :: cs =>
    if c = '\'' then
      match cs with
      | '\'' :: cs => readSingle fuel ('\'' :: done) cs
      | cs => .ok (done, cs)
    else if isGap c then
      match readGap (c :: cs) with
      | .ok (gap, rest) => readSingle fuel ((fold gap).reverse ++ done) rest
      | .error fault => .error fault
    else readSingle fuel (c :: done) cs

/-- Whether an unquoted text ends before these characters. -/
def endsPlain : List Char → Bool
  | [] => true
  | ':' :: rest => (rest.head?.map isGap).getD true
  | c :: _ => isBracketOrComma c

/-- Whether an unquoted text may go on with these characters after a gap. -/
def resumesPlain (cs : List Char) : Bool :=
  !endsPlain cs && cs.head? ≠ some '#'

/-- A colon directly before a bracket, a comma or a question mark belongs to nothing. -/
def isStrayColon : List Char → Bool
  | ':' :: c :: _ => isBracketOrComma c || c = '?'
  | _ => false

/-- The characters of an unquoted text, newest first, and the text after it. -/
def readPlain : Nat → List Char → List Char → Except ReadFault (List Char × List Char)
  | _, done, [] => .ok (done, [])
  | 0, _, _ :: _ => .error .unexpectedEnd
  | fuel + 1, done, c :: cs =>
    if isStrayColon (c :: cs) then .error (.unexpected "colon")
    else if endsPlain (c :: cs) then .ok (done, c :: cs)
    else if isGap c then
      match readGap (c :: cs) with
      | .ok (gap, rest) =>
        if resumesPlain rest then readPlain fuel ((fold gap).reverse ++ done) rest
        else if isStrayColon rest then .error (.unexpected "colon")
        else .ok (done, rest)
      | .error fault => .error fault
    else readPlain fuel (c :: done) cs

end AgentMarkup.Flow
