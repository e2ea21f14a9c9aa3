import AgentMarkup.Json.Reader

/-!
What unquoted scalars of flow notation mean. Null and the booleans have three spellings
each, integers four bases, and decimal numbers are those that round to a finite double;
the names of numbers that are not finite mean null. Every other spelling is text. A run
of digits that begins with a zero is text as well.
-/

set_option autoImplicit false
set_option relaxedAutoImplicit false

namespace AgentMarkup.Flow

open Decimal

/-- Whether an unquoted scalar, which may be empty, spells null. -/
def spellsNull (spelling : String) : Bool :=
  ["", "~", "null", "Null", "NULL"].contains spelling

/-- The names of the numbers that are not finite. -/
def infiniteNames : List String :=
  [".inf", ".Inf", ".INF", "+.inf", "+.Inf", "+.INF", "-.inf", "-.Inf", "-.INF",
    ".nan", ".NaN", ".NAN"]

def word? (spelling : String) : Option Scalar :=
  if infiniteNames.contains spelling then some .null
  else if ["true", "True", "TRUE"].contains spelling then some (.bool true)
  else if ["false", "False", "FALSE"].contains spelling then some (.bool false)
  else none

/-- The base that a number states, and its digits. -/
def splitBase : List Char → Nat × List Char
  | '0' :: 'x' :: digits => (16, digits)
  | '0' :: 'o' :: digits => (8, digits)
  | '0' :: 'b' :: digits => (2, digits)
  | digits => (10, digits)

/-- The number that digits spell in a base up to sixteen. -/
def readInBase (base : Nat) (digits : List Char) : Option Nat :=
  if digits.isEmpty then none
  else
    digits.foldlM
      (fun n c ↦ do
        let digit ← Json.hexDigit? c
        if digit < base then some (base * n + digit) else none) 0

def isPaddedWithZero (digits : List Char) : Bool :=
  match digits with
  | '0' :: rest => !rest.isEmpty && rest.all Char.isDigit
  | _ => false

def integer? (spelling : List Char) : Option Int :=
  let (negative, digits) := takeSign spelling
  if isPaddedWithZero digits then none
  else
    let (base, digits) := splitBase digits
    (readInBase base digits).map fun n ↦ if negative then -n else n

def real? (spelling : List Char) : Option Number := do
  if isPaddedWithZero (takeSign spelling).2 then none
  else
    let literal ← Literal.read spelling
    let magnitude ← Binary64.ofDecimal literal.significand literal.scale
    return .real literal.negative magnitude

/-- What a spelling other than those of null means. Integers of more than sixty-four bits
have no value until they are so large that they count as decimal numbers. -/
def scalarValue (spelling : String) : Option Scalar :=
  match word? spelling with
  | some word => some word
  | none =>
    let characters := spelling.toList
    let otherwise := ((real? characters).map Scalar.num).getD (.str spelling)
    match integer? characters with
    | some n =>
      if -twoPow 63 ≤ n ∧ n < twoPow 64 then some (.num (.int n))
      else if -twoPow 127 ≤ n ∧ n < twoPow 128 then none
      else some otherwise
    | none => some otherwise

end AgentMarkup.Flow
