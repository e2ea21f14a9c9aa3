import AgentMarkup.Decimal.Binary64

/-!
The shortest decimal that reads back as a given double: on the first decimal grid that
meets the interval of rationals rounding to the double, the point nearest to it.
-/

set_option autoImplicit false
set_option relaxedAutoImplicit false

namespace AgentMarkup.Decimal

/-- The number `digits * 10 ^ exponent`. -/
structure Digits where
  digits : Nat
  exponent : Int
deriving DecidableEq

/-- Four times a magnitude and the two ends of its rounding interval, over a common
denominator. The lower gap is half as wide below a power of two. -/
structure Interval where
  low : Nat
  value : Nat
  high : Nat
  den : Nat
  closed : Bool

def Binary64.interval (b : Binary64) : Interval :=
  let half := if b.mantissa = twoPow 52 ∧ -1074 < b.exponent then 1 else 2
  let (unit, den) := Binary64.unscale 1 4 (-b.exponent)
  ⟨(4 * b.mantissa - half) * unit, 4 * b.mantissa * unit, (4 * b.mantissa + 2) * unit, den,
    b.mantissa % 2 = 0⟩

/-- Numerator and denominator of `n / den * 10 ^ (-exponent)`. -/
def unscaleTen (n den : Nat) (exponent : Int) : Nat × Nat :=
  if 0 ≤ exponent then (n, den * tenPow exponent.toNat)
  else (n * tenPow (-exponent).toNat, den)

/-- Position of the leading digit: `10 ^ (p - 1) ≤ num / den < 10 ^ p`. -/
def leadingPosition (num den : Nat) : Int :=
  if den ≤ num then digitCount (num / den)
  else
    let count := digitCount (den / num)
    if den = num * tenPow (count - 1) then 2 - (count : Int) else 1 - (count : Int)

/-- Whether the grid point `digits * 10 ^ exponent` rounds to the double. -/
def Interval.holds (i : Interval) (digits : Nat) (exponent : Int) : Bool :=
  let (point, den) := unscaleTen digits 1 (-exponent)
  let scaled := point * i.den
  if i.closed then i.low * den ≤ scaled && scaled ≤ i.high * den
  else i.low * den < scaled && scaled < i.high * den

/-- The neighbour of the double on the grid of this exponent that rounds to it, the
nearer one if both do and the even one of two equally near. -/
def Interval.onGrid? (i : Interval) (exponent : Int) : Option Digits :=
  let (num, den) := unscaleTen i.value i.den exponent
  let below := num / den
  let nearest := Binary64.roundDiv num den
  let other := if nearest = below then below + 1 else below
  if i.holds nearest exponent then some ⟨nearest, exponent⟩
  else if i.holds other exponent then some ⟨other, exponent⟩
  else none

/-- The same number without final zeros among its digits. -/
def Digits.reduce (d : Digits) : Digits :=
  if 0 < d.digits ∧ d.digits % 10 = 0 then
    Digits.reduce ⟨d.digits / 10, d.exponent + 1⟩
  else d
termination_by d.digits

/-- Grids from one digit up; seventeen digits always suffice. A double just below a
power of ten may round up to it, which leaves a final zero to drop. -/
def shortest (b : Binary64) : Digits :=
  let i := b.interval
  let position := leadingPosition i.value i.den
  ((List.range 17).findSome? fun (count : Nat) ↦ i.onGrid? (position - count - 1)).elim
    ⟨b.mantissa, 0⟩ Digits.reduce

end AgentMarkup.Decimal
