import AgentMarkup.Proofs.Decimal.Grammar
import Mathlib.Algebra.Order.Field.Rat
import Mathlib.Algebra.Order.Field.Power
import Mathlib.Tactic.FieldSimp
import Mathlib.Tactic.Linarith
import Mathlib.Tactic.Positivity
import Mathlib.Tactic.Ring

/-!
The rational that a decimal number denotes, and when it is below the bound of finite doubles.
Neither the digits nor the exponent are limited, and leading or trailing zeros may cancel a huge
exponent. What is compared is the place of the first digit that is not zero: a magnitude of less
than three hundred and nine places is below the bound, one of more is not, and for the rest the
two integers are compared (`isBelowOverflowAs_eq_true_iff`).
-/

set_option autoImplicit false
set_option relaxedAutoImplicit false

namespace AgentMarkup.Decimal

theorem twoPow_eq (n : Nat) : twoPow n = 2 ^ n := rfl

theorem tenPow_eq (n : Nat) : tenPow n = 10 ^ n := rfl

/-! ### Runs of digits -/

theorem foldl_digits_eq (digits : List Char) (n : Nat) :
    digits.foldl (fun n c ↦ 10 * n + (c.toNat - '0'.toNat)) n =
      n * 10 ^ digits.length + digitsValue digits := by
  induction digits generalizing n with
  | nil => simp [digitsValue]
  | cons c digits ih =>
    rw [digitsValue, List.foldl_cons, List.foldl_cons, ih, ih (10 * 0 + _), List.length_cons]
    ring

theorem digitsValue_append (left right : List Char) :
    digitsValue (left ++ right) =
      digitsValue left * 10 ^ right.length + digitsValue right := by
  rw [digitsValue, List.foldl_append, foldl_digits_eq right]
  rfl

theorem digitsValue_cons (c : Char) (digits : List Char) :
    digitsValue (c :: digits) =
      (c.toNat - '0'.toNat) * 10 ^ digits.length + digitsValue digits := by
  rw [digitsValue, List.foldl_cons, foldl_digits_eq]
  simp

theorem toNat_sub_lt_ten {c : Char} (h : c.isDigit = true) : c.toNat - '0'.toNat < 10 := by
  have h9 : c.toNat ≤ 57 := by
    simp only [Char.isDigit, Bool.and_eq_true, decide_eq_true_eq] at h
    exact h.2
  have h0 : '0'.toNat = 48 := rfl
  omega

theorem digitsValue_lt {digits : List Char} (h : IsDigits digits) :
    digitsValue digits < 10 ^ digits.length := by
  induction digits with
  | nil => simp [digitsValue]
  | cons c digits ih =>
    have hc := toNat_sub_lt_ten (h c List.mem_cons_self)
    have hdigits := ih fun d hd ↦ h d (List.mem_cons_of_mem c hd)
    rw [digitsValue_cons, List.length_cons, pow_succ]
    nlinarith

/-- Leading zeros count for nothing. -/
theorem digitsValue_dropWhile_zero (digits : List Char) :
    digitsValue (digits.dropWhile (· = '0')) = digitsValue digits := by
  induction digits with
  | nil => rfl
  | cons c digits ih =>
    by_cases hc : c = '0'
    · subst hc
      rw [List.dropWhile_cons_of_pos (by decide), ih, digitsValue_cons]
      simp
    · rw [List.dropWhile_cons_of_neg (by simpa using hc)]

theorem digitsValue_eq_zero {digits : List Char} (h : ∀ c ∈ digits, c = '0') :
    digitsValue digits = 0 := by
  rw [← digitsValue_dropWhile_zero, List.dropWhile_eq_nil_iff.mpr (by simpa using h)]
  rfl

/-- A first digit other than zero holds its place. -/
theorem le_digitsValue_cons {c : Char} {digits : List Char} (hdigit : c.isDigit = true)
    (hc : c ≠ '0') : 10 ^ digits.length ≤ digitsValue (c :: digits) := by
  have h0 : '0'.toNat < c.toNat := by
    simp only [Char.isDigit, Bool.and_eq_true, decide_eq_true_eq] at hdigit
    refine lt_of_le_of_ne hdigit.1 fun h ↦ hc (Char.toNat_inj.mp h.symm)
  rw [digitsValue_cons]
  exact le_add_right (Nat.le_mul_of_pos_left _ (by omega))

/-! ### The bound -/

/-- The least magnitude that rounds to infinity, as a rational. -/
theorem cast_overflowBound : (overflowBound : ℚ) = 2 ^ 1024 - 2 ^ 970 := by
  rw [overflowBound, Nat.cast_sub (by decide +kernel), twoPow_eq, twoPow_eq, Nat.cast_pow,
    Nat.cast_pow, Nat.cast_ofNat]

theorem ten_pow_le_overflowBound : 10 ^ 308 ≤ overflowBound := by decide +kernel

theorem overflowBound_pos : 0 < overflowBound :=
  Nat.lt_of_lt_of_le (by positivity) ten_pow_le_overflowBound

theorem overflowBound_le_ten_pow : overflowBound ≤ 10 ^ 309 := by decide +kernel

/-- Numbers of at most three hundred and eight places are below the bound. -/
theorem mul_zpow_lt_overflowBound {m count : Nat} {scale : Int} (hm : m < 10 ^ count)
    (h : (count : Int) + scale < 309) : (m : ℚ) * 10 ^ scale < overflowBound := by
  have hm' : (m : ℚ) < 10 ^ count := by exact_mod_cast hm
  calc (m : ℚ) * 10 ^ scale
      < 10 ^ count * 10 ^ scale := mul_lt_mul_of_pos_right hm' (by positivity)
    _ = 10 ^ ((count : Int) + scale) := by rw [zpow_add₀ (by norm_num), zpow_natCast]
    _ ≤ 10 ^ (308 : Int) := zpow_le_zpow_right₀ (by norm_num) (by omega)
    _ ≤ overflowBound := by exact_mod_cast ten_pow_le_overflowBound

/-- Numbers of at least three hundred and ten places are not. -/
theorem overflowBound_le_mul_zpow {m places : Nat} {scale : Int} (hm : 10 ^ places ≤ m)
    (h : 309 ≤ (places : Int) + scale) : (overflowBound : ℚ) ≤ m * 10 ^ scale := by
  have hm' : (10 : ℚ) ^ places ≤ m := by exact_mod_cast hm
  calc (overflowBound : ℚ)
      ≤ 10 ^ (309 : Int) := by exact_mod_cast overflowBound_le_ten_pow
    _ ≤ 10 ^ ((places : Int) + scale) := zpow_le_zpow_right₀ (by norm_num) h
    _ = 10 ^ places * 10 ^ scale := by rw [zpow_add₀ (by norm_num), zpow_natCast]
    _ ≤ m * 10 ^ scale := mul_le_mul_of_nonneg_right hm' (by positivity)

/-- Scaled numbers compare as the integers do once the power of ten is on the side where it
is one. -/
theorem mul_zpow_lt_iff (m bound : Nat) (scale : Int) :
    (m : ℚ) * 10 ^ scale < bound ↔
      if 0 ≤ scale then m * tenPow scale.toNat < bound
      else m < bound * tenPow (-scale).toNat := by
  split_ifs with h
  · obtain ⟨k, rfl⟩ := Int.eq_ofNat_of_zero_le h
    rw [zpow_natCast, Int.toNat_natCast, tenPow_eq]
    exact_mod_cast Iff.rfl
  · obtain ⟨k, hk⟩ := Int.eq_ofNat_of_zero_le (a := -scale) (by omega)
    obtain rfl : scale = -(k : Int) := by omega
    rw [zpow_neg, zpow_natCast, ← div_eq_mul_inv, div_lt_iff₀ (by positivity), neg_neg,
      Int.toNat_natCast, tenPow_eq]
    exact_mod_cast Iff.rfl

theorem isBelowOverflowAs_eq_true_iff {places m : Nat} (scale : Int) (hlow : 10 ^ places ≤ m)
    (hhigh : m < 10 ^ (places + 1)) :
    isBelowOverflowAs (places + 1) m scale = true ↔ (m : ℚ) * 10 ^ scale < overflowBound := by
  unfold isBelowOverflowAs
  split_ifs with hsmall hlarge hscale
  · exact iff_of_true rfl (mul_zpow_lt_overflowBound hhigh hsmall)
  · push_cast at hlarge
    exact iff_of_false not_false (not_lt.mpr (overflowBound_le_mul_zpow hlow (by omega)))
  · rw [mul_zpow_lt_iff, if_pos hscale, decide_eq_true_eq]
  · rw [mul_zpow_lt_iff, if_neg hscale, decide_eq_true_eq]

/-! ### Literals -/

namespace Literal

/-- The rational that a number denotes. -/
def value (l : Literal) : ℚ :=
  (if l.negative then -1 else 1) *
    (digitsValue l.whole + digitsValue l.fraction / 10 ^ l.fraction.length) * 10 ^ l.exponent

theorem abs_value (l : Literal) : |l.value| = l.significand * 10 ^ l.scale := by
  have hsign : |(if l.negative then -1 else 1 : ℚ)| = 1 := by split_ifs <;> simp
  have hdigits : (0 : ℚ) ≤ digitsValue l.whole + digitsValue l.fraction / 10 ^ l.fraction.length :=
    by positivity
  have hpower : (0 : ℚ) < 10 ^ l.exponent := by positivity
  rw [value, abs_mul, abs_mul, hsign, one_mul, abs_of_nonneg hdigits, abs_of_pos hpower,
    significand, digitsValue_append, scale, zpow_sub₀ (by norm_num), zpow_natCast]
  push_cast
  field_simp

theorem value_eq_zero {l : Literal} (h : ∀ c ∈ l.whole ++ l.fraction, c = '0') :
    l.value = 0 := by
  rw [← abs_eq_zero, abs_value, significand, digitsValue_eq_zero h, Nat.cast_zero, zero_mul]

theorem abs_value_eq_div (l : Literal) : |l.value| = l.value.num.natAbs / l.value.den := by
  conv_lhs => rw [← Rat.num_div_den l.value]
  rw [abs_div, Nat.abs_cast, Nat.cast_natAbs, Int.cast_abs]

theorem isFinite_eq_true_iff {l : Literal} (h : IsDigits (l.whole ++ l.fraction)) :
    l.isFinite = true ↔ |l.value| < overflowBound := by
  have hsignificand : l.significand =
      digitsValue ((l.whole ++ l.fraction).dropWhile (· = '0')) :=
    (digitsValue_dropWhile_zero _).symm
  have hdigits : IsDigits ((l.whole ++ l.fraction).dropWhile (· = '0')) :=
    fun c hc ↦ h c ((List.dropWhile_sublist _).mem hc)
  have hfirst := List.head?_dropWhile_not (· = '0') (l.whole ++ l.fraction)
  rw [abs_value, isFinite]
  generalize (l.whole ++ l.fraction).dropWhile (· = '0') = digits at *
  cases digits with
  | nil =>
    have hzero : l.significand = 0 := hsignificand
    refine iff_of_true rfl ?_
    rw [hzero, Nat.cast_zero, zero_mul]
    exact Nat.cast_pos.mpr overflowBound_pos
  | cons c digits =>
    have hc : c ≠ '0' := by simpa using hfirst
    rw [List.isEmpty_cons, Bool.false_or, List.length_cons, hsignificand]
    exact isBelowOverflowAs_eq_true_iff l.scale
      (le_digitsValue_cons (hdigits c List.mem_cons_self) hc) (digitsValue_lt hdigits)

end Literal

end AgentMarkup.Decimal
