import AgentMarkup.Proofs.Decimal.Rounding
import AgentMarkup.Schema.Basic

/-!
The literals that an attribute of type number accepts. Blanks around the literal aside they are
the decimal numbers of which the magnitude is below the bound from which on rationals round to
infinity; so they are the literals that a finite double can be read from. The grammar and the value
are those of `Decimal.Literal.Spells` and `Decimal.Literal.value`, which know nothing of the
reader.
-/

set_option autoImplicit false
set_option relaxedAutoImplicit false

namespace AgentMarkup

open Decimal (Literal Binary64)

/-- No character of a number is blank. -/
theorem isBlank_of_isNumeral {c : Char} (h : Literal.IsNumeral c) : Text.isBlank c = false := by
  rcases h with hdigit | hmark
  · simp only [Char.isDigit, Bool.and_eq_true, decide_eq_true_eq] at hdigit
    obtain ⟨hlow, hhigh⟩ : 48 ≤ c.toNat ∧ c.toNat ≤ 57 := hdigit
    simp only [Text.isBlank, Bool.or_eq_false_iff, Bool.and_eq_false_iff, decide_eq_false_iff_not,
      beq_eq_false_iff_ne]
    omega
  · simp only [List.mem_cons, List.not_mem_nil, or_false] at hmark
    rcases hmark with rfl | rfl | rfl | rfl | rfl <;> decide

/-- What a number is rounded to is a double, and none is nearer to its magnitude. -/
theorem nearest_of_round {l : Literal} {double : Binary64}
    (h : Binary64.round l.value.num.natAbs l.value.den = some double) :
    double.IsDouble ∧ ∀ other : Binary64, other.IsDouble →
      |double.magnitude - (|l.value|)| ≤ |other.magnitude - (|l.value|)| := by
  refine ⟨Binary64.isDouble_of_round l.value.den_pos h, fun other hother ↦ ?_⟩
  rw [Literal.abs_value_eq_div]
  exact Binary64.round_nearest l.value.den_pos h hother

namespace ValueType

theorem acceptsNumber_eq_true_iff {literal : String} :
    acceptsNumber literal = true ↔
      ∃ l : Literal, l.Spells (Text.trim literal).toList ∧ l.isFinite = true := by
  rw [acceptsNumber, Text.trim, String.toList_ofList]
  cases hread : Literal.read (Text.trimBy Text.isBlank literal.toList) with
  | none =>
    simp only [Bool.false_eq_true, false_iff, not_exists, not_and]
    intro l hl
    rw [Literal.read_of_spells hl] at hread
    cases hread
  | some l =>
    constructor
    · exact fun h ↦ ⟨l, Literal.spells_of_read hread, h⟩
    · rintro ⟨l', hl', h⟩
      obtain rfl := Option.some.inj (hread.symm.trans (Literal.read_of_spells hl'))
      exact h

/-- A text is a number in at most one way, so one spelling decides. -/
theorem acceptsNumber_eq_true_iff_of_spells {literal : String} {l : Literal}
    (h : l.Spells (Text.trim literal).toList) :
    acceptsNumber literal = true ↔ |l.value| < Decimal.overflowBound := by
  rw [acceptsNumber_eq_true_iff, ← Literal.isFinite_eq_true_iff h.isDigits]
  constructor
  · rintro ⟨l', hl', hfinite⟩
    have hsame := (Literal.read_of_spells hl').symm.trans (Literal.read_of_spells h)
    obtain rfl := Option.some.inj hsame
    exact hfinite
  · exact fun hfinite ↦ ⟨l, h, hfinite⟩

section

variable {literal : String} {l : Literal}

theorem acceptsNumber_eq_true_iff_exists : acceptsNumber literal = true ↔
    ∃ l : Literal, l.Spells (Text.trim literal).toList ∧ |l.value| < 2 ^ 1024 - 2 ^ 970 := by
  rw [← Decimal.cast_overflowBound]
  constructor
  · intro h
    obtain ⟨l, hl, -⟩ := acceptsNumber_eq_true_iff.mp h
    exact ⟨l, hl, (acceptsNumber_eq_true_iff_of_spells hl).mp h⟩
  · rintro ⟨l, hl, hbelow⟩
    exact (acceptsNumber_eq_true_iff_of_spells hl).mpr hbelow

/-- The bound is where rounding to nearest ends at infinity. -/
theorem acceptsNumber_eq_true_iff_round (h : l.Spells (Text.trim literal).toList) :
    acceptsNumber literal = true ↔
      ∃ double, Binary64.round l.value.num.natAbs l.value.den = some double := by
  have hnone := Binary64.round_eq_none_iff l.value.num.natAbs l.value.den_pos
  rw [← Literal.abs_value_eq_div] at hnone
  rw [← Option.ne_none_iff_exists', Ne, hnone, not_le]
  exact acceptsNumber_eq_true_iff_of_spells h

theorem numeral_of_acceptsNumber (h : acceptsNumber literal = true) :
    (∀ c ∈ (Text.trim literal).toList, Literal.IsNumeral c ∧ Text.isBlank c = false) ∧
      ∃ c ∈ (Text.trim literal).toList, c.isDigit = true := by
  obtain ⟨l, hl, -⟩ := acceptsNumber_eq_true_iff.mp h
  exact ⟨fun c hc ↦ ⟨hl.isNumeral c hc, isBlank_of_isNumeral (hl.isNumeral c hc)⟩,
    hl.exists_digit⟩

theorem acceptsNumber_of_abs_value_le_one (h : l.Spells (Text.trim literal).toList)
    (hsmall : |l.value| ≤ 1) : acceptsNumber literal = true := by
  have hone : 1 < Decimal.overflowBound :=
    Nat.lt_of_lt_of_le (Nat.one_lt_pow (by decide) (by decide)) Decimal.ten_pow_le_overflowBound
  exact (acceptsNumber_eq_true_iff_of_spells h).mpr (hsmall.trans_lt (Nat.one_lt_cast.mpr hone))

end

end ValueType

namespace AttributeSpec

/-- What a declaration accepts as a number: the literals that are decimal numbers, blanks around
them aside, and denote a rational of which the magnitude rounds to a finite double. -/
structure AcceptsNumbers (spec : AttributeSpec) (literal : String) : Prop where
  exact : spec.accepts literal = true ↔
    ∃ l : Literal, l.Spells (Text.trim literal).toList ∧ |l.value| < 2 ^ 1024 - 2 ^ 970
  finite : ∀ l : Literal, l.Spells (Text.trim literal).toList →
    (spec.accepts literal = true ↔
      ∃ double, Binary64.round l.value.num.natAbs l.value.den = some double)
  nearest : ∀ l : Literal, l.Spells (Text.trim literal).toList → ∀ double,
    Binary64.round l.value.num.natAbs l.value.den = some double → double.IsDouble ∧
      ∀ other : Binary64, other.IsDouble →
        |double.magnitude - (|l.value|)| ≤ |other.magnitude - (|l.value|)|
  /-- No word for infinity or for what is not a number, nothing empty, and no blank within. -/
  numeral : spec.accepts literal = true →
    (∀ c ∈ (Text.trim literal).toList, Literal.IsNumeral c ∧ Text.isBlank c = false) ∧
      ∃ c ∈ (Text.trim literal).toList, c.isDigit = true
  overflow : ∀ l : Literal, l.Spells (Text.trim literal).toList →
    2 ^ 1024 - 2 ^ 970 ≤ |l.value| → spec.accepts literal = false
  /-- Whatever the exponent is. -/
  zero : ∀ l : Literal, l.Spells (Text.trim literal).toList →
    (∀ c ∈ l.whole ++ l.fraction, c = '0') → spec.accepts literal = true
  small : ∀ l : Literal, l.Spells (Text.trim literal).toList →
    |l.value| ≤ 1 → spec.accepts literal = true

theorem acceptsNumbers (required : Bool) (default : Option Json) (description : Option String)
    (literal : String) : AcceptsNumbers ⟨.number, required, default, description⟩ literal where
  exact := ValueType.acceptsNumber_eq_true_iff_exists
  finite _ hl := ValueType.acceptsNumber_eq_true_iff_round hl
  nearest _ _ _ := nearest_of_round
  numeral := ValueType.numeral_of_acceptsNumber
  overflow l hl hlarge := by
    rw [← Decimal.cast_overflowBound] at hlarge
    refine Bool.eq_false_iff.mpr fun haccepts ↦ not_lt.mpr hlarge ?_
    exact (ValueType.acceptsNumber_eq_true_iff_of_spells hl).mp haccepts
  zero l hl hzero := by
    have hsmall : |l.value| ≤ 1 := by
      rw [Literal.value_eq_zero hzero, abs_zero]
      exact zero_le_one
    exact ValueType.acceptsNumber_of_abs_value_le_one hl hsmall
  small _ hl hsmall := ValueType.acceptsNumber_of_abs_value_le_one hl hsmall

/-- Zeros may cancel an exponent of any size, and a word for infinity is no number. -/
example : (optional .number).accepts " 0.0001e+312" = true ∧
    (optional .number).accepts "1000e306" = false ∧
    (optional .number).accepts "-inf" = false := by
  decide +kernel

end AttributeSpec

end AgentMarkup
