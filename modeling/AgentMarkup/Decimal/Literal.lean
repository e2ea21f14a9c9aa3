/-!
Decimal number literals: an optional sign, digits with at most one point and at least
one digit, and an optional exponent. A literal denotes an exact rational, and it is
finite when that rational rounds to a finite double.
-/

set_option autoImplicit false
set_option relaxedAutoImplicit false

namespace AgentMarkup.Decimal

def twoPow (n : Nat) : Nat := Nat.pow 2 n

def tenPow (n : Nat) : Nat := Nat.pow 10 n

/-- The number that a run of decimal digits spells. -/
def digitsValue (digits : List Char) : Nat :=
  digits.foldl (fun n c ↦ 10 * n + (c.toNat - '0'.toNat)) 0

/-- Number of decimal digits, one for zero. -/
def digitCount (n : Nat) : Nat :=
  (Nat.toDigits 10 n).length

/-- Takes a leading sign off; the flag tells whether it was a minus. -/
def takeSign : List Char → Bool × List Char
  | '-' :: rest => (true, rest)
  | '+' :: rest => (false, rest)
  | rest => (false, rest)

structure Literal where
  negative : Bool
  whole : List Char
  fraction : List Char
  exponent : Int
deriving DecidableEq

namespace Literal

/-- All digits before and after the point, read as one number. -/
def significand (l : Literal) : Nat :=
  digitsValue (l.whole ++ l.fraction)

/-- The power of ten by which the significand counts. -/
def scale (l : Literal) : Int :=
  l.exponent - l.fraction.length

/-- What may follow the digits: nothing, or an exponent that reaches the end. -/
def readExponent : List Char → Option Int
  | [] => some 0
  | mark :: rest =>
    if mark = 'e' ∨ mark = 'E' then
      let (negative, digits) := takeSign rest
      if digits.isEmpty || !digits.all Char.isDigit then none
      else if negative then some (-(digitsValue digits : Int))
      else some (digitsValue digits)
    else none

/-- The point and the digits after it, if there is a point. -/
def splitFraction : List Char → List Char × List Char
  | '.' :: rest => (rest.takeWhile Char.isDigit, rest.dropWhile Char.isDigit)
  | rest => ([], rest)

def read (text : List Char) : Option Literal :=
  let (negative, rest) := takeSign text
  let whole := rest.takeWhile Char.isDigit
  let (fraction, rest) := splitFraction (rest.dropWhile Char.isDigit)
  if whole.isEmpty && fraction.isEmpty then none
  else (readExponent rest).map fun exponent ↦ ⟨negative, whole, fraction, exponent⟩

end Literal

/-- Rationals from here on round to infinity: half a unit above the largest double. -/
def overflowBound : Nat :=
  twoPow 1024 - twoPow 970

/-- Whether `significand * 10 ^ scale`, with a significand of `count` digits, is below the
bound. Only magnitudes of three hundred and nine places have to be compared with it. -/
@[macro_inline]
def isBelowOverflowAs (count : Nat) (significand : Nat) (scale : Int) : Bool :=
  if (count : Int) + scale < 309 then true
  else if 309 < (count : Int) + scale then false
  else if 0 ≤ scale then significand * tenPow scale.toNat < overflowBound
  else significand < overflowBound * tenPow (-scale).toNat

def isBelowOverflow (significand : Nat) (scale : Int) : Bool :=
  significand = 0 || isBelowOverflowAs (digitCount significand) significand scale

/-- Counts the digits as they are written, so no large number is formed for a literal
that is clearly small or clearly large. -/
def Literal.isFinite (l : Literal) : Bool :=
  let digits := (l.whole ++ l.fraction).dropWhile (· = '0')
  digits.isEmpty || isBelowOverflowAs digits.length l.significand l.scale

end AgentMarkup.Decimal
