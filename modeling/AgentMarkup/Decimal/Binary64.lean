import AgentMarkup.Decimal.Literal

/-!
Magnitudes of finite doubles as exact numbers, a mantissa times a power of two, and
rounding of rationals to them: to nearest, and from a tie to the even mantissa.
-/

set_option autoImplicit false
set_option relaxedAutoImplicit false

namespace AgentMarkup.Decimal

/-- The number `mantissa * 2 ^ exponent`. -/
structure Binary64 where
  mantissa : Nat
  exponent : Int
deriving DecidableEq

namespace Binary64

def zero : Binary64 := ⟨0, 0⟩

/-- The quotient rounded to nearest, a half going to the even neighbour. -/
def roundDiv (num den : Nat) : Nat :=
  let quotient := num / den
  let twice := 2 * (num % den)
  if twice < den then quotient
  else if den < twice then quotient + 1
  else quotient + quotient % 2

/-- Numerator and denominator of `num / den * 2 ^ (-exponent)`. -/
def unscale (num den : Nat) (exponent : Int) : Nat × Nat :=
  if 0 ≤ exponent then (num, den * twoPow exponent.toNat)
  else (num * twoPow (-exponent).toNat, den)

/-- The exponent that leaves a mantissa of fifty-three bits, or the least there is. -/
def exponentOf (num den : Nat) : Int :=
  let guess : Int := (Nat.log2 num : Int) - Nat.log2 den - 53
  let (n, d) := unscale num den guess
  max (if n / d < twoPow 53 then guess else guess + 1) (-1074)

/-- The double nearest to `num / den`, unless that is infinite. -/
def round (num den : Nat) : Option Binary64 :=
  if num = 0 then some zero
  else
    let exponent := exponentOf num den
    let (n, d) := unscale num den exponent
    let mantissa := roundDiv n d
    let result : Binary64 :=
      if mantissa = twoPow 53 then ⟨twoPow 52, exponent + 1⟩ else ⟨mantissa, exponent⟩
    if result.mantissa = 0 then some zero
    else if 971 < result.exponent then none
    else some result

def mul (a b : Binary64) : Option Binary64 :=
  let (n, d) := unscale (a.mantissa * b.mantissa) 1 (-(a.exponent + b.exponent))
  round n d

def div (a b : Binary64) : Option Binary64 :=
  let (n, d) := unscale a.mantissa b.mantissa (b.exponent - a.exponent)
  round n d

/-- The double nearest to `significand * 10 ^ scale`. Values far below the least
double need no exact power. -/
def ofDecimal (significand : Nat) (scale : Int) : Option Binary64 :=
  if !isBelowOverflow significand scale then none
  else if digitCount significand + scale < -400 then some zero
  else if 0 ≤ scale then round (significand * tenPow scale.toNat) 1
  else round significand (tenPow (-scale).toNat)

end Binary64

end AgentMarkup.Decimal
