import AgentMarkup.Datum.Reader

/-!
Numbers of JSON texts. Integers of sixty-four bits, signed or not, stay integers; all
other numbers become doubles in two roundings, one of the leading digits that fit in
sixty-four bits and one of their product or quotient with a power of ten.
-/

set_option autoImplicit false
set_option relaxedAutoImplicit false

namespace AgentMarkup.Json

open Decimal

/-- Leading digits read so far, and how many digits were read or passed over. -/
structure LeadingDigits where
  value : Nat
  taken : Nat
  dropped : Nat

namespace LeadingDigits

/-- Takes digits as long as the value fits in sixty-four bits; from the first digit
that does not fit, all are passed over. -/
def extend (start : Nat) (digits : List Char) : LeadingDigits :=
  digits.foldl
    (fun d c ↦
      let value := 10 * d.value + (c.toNat - '0'.toNat)
      if d.dropped = 0 ∧ value < twoPow 64 then { d with value, taken := d.taken + 1 }
      else { d with dropped := d.dropped + 1 })
    ⟨start, 0, 0⟩

end LeadingDigits

/-- Divides a magnitude below `2 ^ 64` by a power of ten, in steps that a double can
hold. After two such steps nothing is left. -/
def divTen (b : Binary64) (power : Nat) : Option Binary64 :=
  let step (b : Binary64) (power : Nat) := (Binary64.ofDecimal 1 power).bind b.div
  if power ≤ 308 then step b power
  else if power ≤ 616 then (step b 308).bind (step · (power - 308))
  else some Binary64.zero

/-- The double for `significand * 10 ^ scale`, unless it is infinite. -/
def scaleTen (significand : Nat) (scale : Int) : Option Binary64 := do
  let b ← Binary64.round significand 1
  if scale < 0 then divTen b (-scale).toNat
  else if scale ≤ 308 then b.mul (← Binary64.ofDecimal 1 scale)
  else if b.mantissa = 0 then some b
  else none

/-- The parts of a number as written. -/
structure NumberText where
  negative : Bool
  whole : List Char
  fraction : Option (List Char)
  exponent : Option Int

namespace NumberText

/-- Negative zero has no integer and is a double. -/
def integer? (t : NumberText) : Option Int :=
  let value := digitsValue t.whole
  if t.fraction.isSome || t.exponent.isSome then none
  else if t.negative then
    if value = 0 ∨ twoPow 63 < value then none else some (-(value : Int))
  else if value < twoPow 64 then some value
  else none

def number? (t : NumberText) : Option Number :=
  match t.integer? with
  | some value => some (.int value)
  | none =>
    let whole := LeadingDigits.extend 0 t.whole
    let fraction := LeadingDigits.extend whole.value (t.fraction.getD [])
    let scale : Int := (whole.dropped : Int) - fraction.taken + t.exponent.getD 0
    (scaleTen fraction.value scale).map (.real t.negative)

/-- At least one digit, and what follows the digits. -/
def readDigits (cs : List Char) : Except ReadFault (List Char × List Char) :=
  match cs.takeWhile Char.isDigit with
  | [] => .error .badNumber
  | digits => .ok (digits, cs.dropWhile Char.isDigit)

/-- A whole part has no leading zero unless it is the zero alone. -/
def readWhole (cs : List Char) : Except ReadFault (List Char × List Char) := do
  let (digits, rest) ← readDigits cs
  match digits with
  | '0' :: _ :: _ => .error .badNumber
  | _ => .ok (digits, rest)

def readFraction : List Char → Except ReadFault (Option (List Char) × List Char)
  | '.' :: rest => do
    let (digits, rest) ← readDigits rest
    return (some digits, rest)
  | cs => .ok (none, cs)

def readExponent : List Char → Except ReadFault (Option Int × List Char)
  | [] => .ok (none, [])
  | mark :: rest =>
    if mark = 'e' ∨ mark = 'E' then do
      let (negative, rest) := takeSign rest
      let (digits, rest) ← readDigits rest
      let value : Int := digitsValue digits
      return (some (if negative then -value else value), rest)
    else .ok (none, mark :: rest)

def read (cs : List Char) : Except ReadFault (NumberText × List Char) := do
  let (negative, cs) := match cs with
    | '-' :: rest => (true, rest)
    | cs => (false, cs)
  let (whole, cs) ← readWhole cs
  let (fraction, cs) ← readFraction cs
  let (exponent, cs) ← readExponent cs
  return (⟨negative, whole, fraction, exponent⟩, cs)

end NumberText

end AgentMarkup.Json
