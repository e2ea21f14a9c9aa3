import AgentMarkup.Decimal.Binary64
import AgentMarkup.Proofs.Decimal.Value

/-!
Which rationals round to a finite double. The exponent that is chosen leaves a quotient below
`2 ^ 53`, and one of at least `2 ^ 52` unless it is the least exponent there is
(`exists_normal`). A quotient is rounded up to `2 ^ 53` from half a unit below on, since the
tie goes to the even neighbour (`le_roundDiv_iff`). So there is no double for a rational exactly if
it is at least half a unit above the largest of them (`round_eq_none_iff`), and of a double that
there is no other lies nearer (`round_nearest`).
-/

set_option autoImplicit false
set_option relaxedAutoImplicit false

namespace AgentMarkup.Decimal.Binary64

/-! ### The rounded quotient -/

theorem div_lt_iff_cast {n d k : Nat} (hd : 0 < d) : n / d < k ↔ (n : ℚ) / d < k := by
  have hd' : (0 : ℚ) < d := by exact_mod_cast hd
  rw [Nat.div_lt_iff_lt_mul hd, div_lt_iff₀ hd']
  exact_mod_cast Iff.rfl

theorem roundDiv_cases (n d : Nat) :
    roundDiv n d = n / d ∧ 2 * (n % d) ≤ d ∨ roundDiv n d = n / d + 1 ∧ d ≤ 2 * (n % d) := by
  simp only [roundDiv]
  split_ifs <;> omega

theorem roundDiv_le_succ (n d : Nat) : roundDiv n d ≤ n / d + 1 := by
  rcases roundDiv_cases n d with h | h <;> omega

/-- An even number is reached from half a unit below on. -/
theorem le_roundDiv_iff {n d k : Nat} (hd : 0 < d) (hpos : 0 < k) (heven : k % 2 = 0) :
    k ≤ roundDiv n d ↔ (k : ℚ) - 1 / 2 ≤ n / d := by
  have hd' : (0 : ℚ) < d := by exact_mod_cast hd
  have hhalf : (k : ℚ) - 1 / 2 ≤ n / d ↔ 2 * (k * d) ≤ 2 * n + d := by
    rw [le_div_iff₀ hd']
    constructor
    · intro h
      have : (2 * (k * d) : ℚ) ≤ 2 * n + d := by linarith
      exact_mod_cast this
    · intro h
      have : (2 * (k * d) : ℚ) ≤ 2 * n + d := by exact_mod_cast h
      linarith
  have hsplit : d * (n / d) + n % d = n := Nat.div_add_mod n d
  have hrest : n % d < d := Nat.mod_lt n hd
  rw [hhalf]
  simp only [roundDiv]
  generalize n / d = q at *
  generalize n % d = r at *
  subst hsplit
  rcases Nat.lt_trichotomy k (q + 1) with hk | rfl | hk
  · have hle : k * d ≤ d * q := by rw [mul_comm d]; exact Nat.mul_le_mul_right d (by omega)
    split_ifs <;> omega
  · rw [add_mul, one_mul, mul_comm q]
    split_ifs <;> omega
  · have hle : d * q + 2 * d ≤ k * d := by
      rw [mul_comm d, ← add_mul]; exact Nat.mul_le_mul_right d (by omega)
    split_ifs <;> omega

/-- No multiple of the divisor lies nearer to the dividend than that of the rounded quotient. -/
theorem abs_roundDiv_mul_sub_le {n d : Nat} (hd : 0 < d) (k : Int) :
    |(roundDiv n d * d - n : Int)| ≤ |k * d - n| := by
  have hsplit : ((n / d : Nat) : Int) * d + (n % d : Nat) = n := by
    exact_mod_cast Nat.div_add_mod' n d
  have hrest : n % d < d := Nat.mod_lt n hd
  have hround := roundDiv_cases n d
  generalize n / d = q at *
  generalize n % d = r at *
  -- a multiple is no greater than the one below the dividend, or no less than the one above
  have hside : k * d ≤ q * d ∨ q * d + d ≤ k * d := by
    rcases le_or_gt k q with hk | hk
    · exact .inl (mul_le_mul_of_nonneg_right hk (by positivity))
    · exact .inr (by rw [← add_one_mul]; exact mul_le_mul_of_nonneg_right hk (by positivity))
  have hnear : (roundDiv n d * d : Int) = q * d ∧ 2 * r ≤ d ∨
      (roundDiv n d * d : Int) = q * d + d ∧ d ≤ 2 * r := by
    rcases hround with ⟨hround, hhalf⟩ | ⟨hround, hhalf⟩ <;> rw [hround]
    · exact .inl ⟨rfl, hhalf⟩
    · exact .inr ⟨by push_cast; ring, hhalf⟩
  rw [abs_le]
  rcases abs_cases (k * d - n : Int) with ⟨hk, hsign⟩ | ⟨hk, hsign⟩ <;> rw [hk] <;> omega

theorem abs_sub_div {d : Nat} (hd : 0 < d) (k : Int) (n : Nat) :
    |(k : ℚ) - n / d| = (|k * d - n| : Int) / d := by
  have hd' : (0 : ℚ) < d := by exact_mod_cast hd
  rw [sub_div' hd'.ne', abs_div, abs_of_pos hd']
  push_cast
  rfl

/-- No integer lies nearer to the quotient than the one it is rounded to. -/
theorem abs_roundDiv_sub_le {n d : Nat} (hd : 0 < d) (k : Int) :
    |(roundDiv n d : ℚ) - n / d| ≤ |(k : ℚ) - n / d| := by
  have hround := abs_sub_div hd (roundDiv n d) n
  rw [Int.cast_natCast] at hround
  rw [hround, abs_sub_div hd k n]
  refine div_le_div_of_nonneg_right ?_ (by positivity)
  exact_mod_cast abs_roundDiv_mul_sub_le hd k

/-! ### The exponent -/

theorem unscale_spec (num : Nat) {den : Nat} (hden : 0 < den) (exponent : Int) :
    0 < (unscale num den exponent).2 ∧
      ((unscale num den exponent).1 : ℚ) / (unscale num den exponent).2 =
        num / den / 2 ^ exponent := by
  unfold unscale
  split_ifs with h
  · obtain ⟨k, rfl⟩ := Int.eq_ofNat_of_zero_le h
    simp only [Int.toNat_natCast, twoPow_eq, zpow_natCast]
    refine ⟨by positivity, ?_⟩
    push_cast
    rw [div_div]
  · obtain ⟨k, hk⟩ := Int.eq_ofNat_of_zero_le (a := -exponent) (by omega)
    obtain rfl : exponent = -(k : Int) := by omega
    simp only [neg_neg, Int.toNat_natCast, twoPow_eq, zpow_neg, zpow_natCast, div_inv_eq_mul]
    refine ⟨hden, ?_⟩
    push_cast
    rw [mul_div_right_comm]

/-- The binary logarithms give the quotient up to a factor of two either way. -/
theorem log2_quotient {num den : Nat} (hnum : 0 < num) (hden : 0 < den) :
    (2 : ℚ) ^ ((Nat.log2 num : Int) - Nat.log2 den - 1) ≤ num / den ∧
      (num / den : ℚ) < 2 ^ ((Nat.log2 num : Int) - Nat.log2 den + 1) := by
  have hden' : (0 : ℚ) < den := by exact_mod_cast hden
  have hnumLow : (2 : ℚ) ^ Nat.log2 num ≤ num := by
    exact_mod_cast Nat.log2_self_le hnum.ne'
  have hnumHigh : (num : ℚ) < 2 ^ (Nat.log2 num + 1) := by exact_mod_cast Nat.lt_log2_self
  have hdenLow : (2 : ℚ) ^ Nat.log2 den ≤ den := by
    exact_mod_cast Nat.log2_self_le hden.ne'
  have hdenHigh : (den : ℚ) < 2 ^ (Nat.log2 den + 1) := by exact_mod_cast Nat.lt_log2_self
  constructor
  · rw [le_div_iff₀ hden']
    calc (2 : ℚ) ^ ((Nat.log2 num : Int) - Nat.log2 den - 1) * den
        ≤ 2 ^ ((Nat.log2 num : Int) - Nat.log2 den - 1) * 2 ^ (Nat.log2 den + 1) :=
          mul_le_mul_of_nonneg_left hdenHigh.le (by positivity)
      _ = 2 ^ Nat.log2 num := by
          rw [← zpow_natCast, ← zpow_natCast, ← zpow_add₀ (by norm_num)]
          congr 1
          push_cast
          ring
      _ ≤ num := hnumLow
  · rw [div_lt_iff₀ hden']
    calc (num : ℚ)
        < 2 ^ (Nat.log2 num + 1) := hnumHigh
      _ = 2 ^ ((Nat.log2 num : Int) - Nat.log2 den + 1) * 2 ^ Nat.log2 den := by
          rw [← zpow_natCast, ← zpow_natCast, ← zpow_add₀ (by norm_num)]
          congr 1
          push_cast
          ring
      _ ≤ 2 ^ ((Nat.log2 num : Int) - Nat.log2 den + 1) * den :=
          mul_le_mul_of_nonneg_left hdenLow (by positivity)

/-- The exponent that leaves a quotient of fifty-three bits, before the least exponent is
taken into account. -/
theorem exists_normal {num den : Nat} (hnum : 0 < num) (hden : 0 < den) :
    ∃ e : Int, exponentOf num den = max e (-1074) ∧
      2 ^ 52 * 2 ^ e ≤ (num / den : ℚ) ∧ (num / den : ℚ) < 2 ^ 53 * 2 ^ e := by
  obtain ⟨hlow, hhigh⟩ := log2_quotient hnum hden
  obtain ⟨guess, hguess⟩ :
      ∃ guess : Int, guess = (Nat.log2 num : Int) - Nat.log2 den - 53 := ⟨_, rfl⟩
  have hscale (k : Nat) (e : Int) : (2 : ℚ) ^ k * 2 ^ e = 2 ^ ((k : Int) + e) := by
    rw [zpow_add₀ (by norm_num), zpow_natCast]
  obtain ⟨hpos, hquotient⟩ := unscale_spec num hden guess
  have hfloor : (unscale num den guess).1 / (unscale num den guess).2 < twoPow 53 ↔
      (num / den : ℚ) < 2 ^ 53 * 2 ^ guess := by
    rw [div_lt_iff_cast hpos, hquotient, twoPow_eq, div_lt_iff₀ (by positivity)]
    push_cast
    rfl
  refine ⟨_, by rw [exponentOf, ← hguess], ?_⟩
  split_ifs with h
  · refine ⟨le_trans (le_of_eq ?_) hlow, hfloor.mp h⟩
    rw [hscale]
    congr 1
    push_cast
    omega
  · refine ⟨le_trans (le_of_eq ?_) (not_lt.mp fun hlt ↦ h (hfloor.mpr hlt)),
      lt_of_lt_of_eq hhigh ?_⟩ <;> rw [hscale]
    · rw [hscale]
      congr 1
      push_cast
      ring
    · congr 1
      push_cast
      omega

/-! ### The mantissa -/

/-- The quotient that is rounded to the mantissa of `num / den`. -/
def quotient (num den : Nat) : ℚ :=
  num / den / 2 ^ exponentOf num den

theorem div_eq_quotient_mul (num den : Nat) :
    (num / den : ℚ) = quotient num den * 2 ^ exponentOf num den := by
  rw [quotient, div_mul_cancel₀ _ (by positivity)]

/-- The mantissa before a carry out of fifty-three bits. -/
def mantissaOf (num den : Nat) : Nat :=
  let (n, d) := unscale num den (exponentOf num den)
  roundDiv n d

theorem round_eq {num den : Nat} (hnum : 0 < num) :
    round num den =
      let exponent := exponentOf num den
      let mantissa := mantissaOf num den
      let result : Binary64 :=
        if mantissa = twoPow 53 then ⟨twoPow 52, exponent + 1⟩ else ⟨mantissa, exponent⟩
      if result.mantissa = 0 then some zero
      else if 971 < result.exponent then none
      else some result := by
  rw [round, if_neg hnum.ne']
  rfl

theorem exponentOf_ge (num den : Nat) : -1074 ≤ exponentOf num den := le_max_right _ _

theorem quotient_lt {num den : Nat} (hnum : 0 < num) (hden : 0 < den) :
    quotient num den < 2 ^ 53 := by
  obtain ⟨e, he, -, hhigh⟩ := exists_normal hnum hden
  rw [quotient, div_lt_iff₀ (by positivity)]
  refine lt_of_lt_of_le hhigh (mul_le_mul_of_nonneg_left ?_ (by positivity))
  exact zpow_le_zpow_right₀ (by norm_num) (he ▸ le_max_left _ _)

theorem le_quotient {num den : Nat} (hnum : 0 < num) (hden : 0 < den)
    (h : -1074 < exponentOf num den) : 2 ^ 52 ≤ quotient num den := by
  obtain ⟨e, he, hlow, -⟩ := exists_normal hnum hden
  rw [quotient, le_div_iff₀ (by positivity)]
  rwa [show exponentOf num den = e by omega]

theorem le_mantissaOf_iff {num den k : Nat} (hden : 0 < den) (hpos : 0 < k) (heven : k % 2 = 0) :
    k ≤ mantissaOf num den ↔ (k : ℚ) - 1 / 2 ≤ quotient num den := by
  obtain ⟨hd, hquotient⟩ := unscale_spec num hden (exponentOf num den)
  rw [quotient, ← hquotient]
  exact le_roundDiv_iff hd hpos heven

theorem mantissaOf_le {num den : Nat} (hnum : 0 < num) (hden : 0 < den) :
    mantissaOf num den ≤ 2 ^ 53 := by
  obtain ⟨hd, hquotient⟩ := unscale_spec num hden (exponentOf num den)
  have hlt := quotient_lt hnum hden
  rw [quotient, ← hquotient] at hlt
  exact (roundDiv_le_succ _ _).trans ((div_lt_iff_cast hd).mpr (by exact_mod_cast hlt))

/-! ### Rounding to infinity -/

theorem cast_overflowBound_eq_mul : (overflowBound : ℚ) = (2 ^ 53 - 1 / 2) * 2 ^ (971 : Int) := by
  rw [cast_overflowBound, sub_mul, show (971 : Int) = ((971 : Nat) : Int) from rfl, zpow_natCast,
    ← pow_add, pow_succ 2 970, mul_comm _ (2 : ℚ), ← mul_assoc, one_div_mul_cancel two_ne_zero,
    one_mul]

theorem le_mantissaOf {num den : Nat} (hnum : 0 < num) (hden : 0 < den)
    (h : -1074 < exponentOf num den) : 2 ^ 52 ≤ mantissaOf num den := by
  rw [le_mantissaOf_iff hden (by positivity) (by norm_num)]
  have hle := le_quotient hnum hden h
  push_cast
  linarith

/-- A carry out of fifty-three bits raises the exponent by one. -/
theorem round_eq_none_iff_exponent {num den : Nat} (hnum : 0 < num) (hden : 0 < den) :
    round num den = none ↔
      971 < exponentOf num den ∨ exponentOf num den = 971 ∧ mantissaOf num den = 2 ^ 53 := by
  have hnormal := le_mantissaOf hnum hden
  simp only [round_eq hnum, twoPow_eq]
  by_cases hcarry : mantissaOf num den = 2 ^ 53
  · simp only [hcarry, if_true, and_true]
    rw [if_neg (by positivity)]
    split_ifs <;> simp only [true_iff, false_iff] <;> omega
  · simp only [hcarry, if_false, and_false, or_false]
    split_ifs <;> simp only [true_iff, false_iff] <;> omega

/-- With a lesser exponent than the greatest a rational is below the bound whatever its mantissa
is. -/
theorem div_lt_overflowBound {num den : Nat} (hnum : 0 < num) (hden : 0 < den)
    (h : exponentOf num den < 971) : (num / den : ℚ) < overflowBound := by
  have hpower : (2 : ℚ) ^ exponentOf num den ≤ 2 ^ (970 : Int) :=
    zpow_le_zpow_right₀ (by norm_num) (by omega)
  rw [div_eq_quotient_mul, cast_overflowBound_eq_mul]
  calc quotient num den * 2 ^ exponentOf num den
      < 2 ^ 53 * 2 ^ exponentOf num den :=
        mul_lt_mul_of_pos_right (quotient_lt hnum hden) (by positivity)
    _ ≤ 2 ^ 53 * 2 ^ (970 : Int) := mul_le_mul_of_nonneg_left hpower (by positivity)
    _ ≤ (2 ^ 53 - 1 / 2) * 2 * 2 ^ (970 : Int) :=
        mul_le_mul_of_nonneg_right (by norm_num) (by positivity)
    _ = (2 ^ 53 - 1 / 2) * 2 ^ (971 : Int) := by
        rw [show (971 : Int) = 1 + 970 from rfl, zpow_add₀ (by norm_num), zpow_one, mul_assoc]

/-- With a greater one it is not below the bound. -/
theorem overflowBound_le_div {num den : Nat} (hnum : 0 < num) (hden : 0 < den)
    (h : 971 < exponentOf num den) : (overflowBound : ℚ) ≤ num / den := by
  have hpower : (2 : ℚ) ^ (972 : Int) ≤ 2 ^ exponentOf num den :=
    zpow_le_zpow_right₀ (by norm_num) (by omega)
  have hquotient := le_quotient hnum hden (by omega)
  rw [div_eq_quotient_mul, cast_overflowBound_eq_mul]
  calc ((2 : ℚ) ^ 53 - 1 / 2) * 2 ^ (971 : Int)
      ≤ 2 ^ 52 * 2 * 2 ^ (971 : Int) :=
        mul_le_mul_of_nonneg_right (by norm_num) (by positivity)
    _ = 2 ^ 52 * 2 ^ (972 : Int) := by
        rw [show (972 : Int) = 1 + 971 from rfl, zpow_add₀ (by norm_num), zpow_one, mul_assoc]
    _ ≤ quotient num den * 2 ^ exponentOf num den :=
        mul_le_mul hquotient hpower (by positivity) (le_trans (by positivity) hquotient)

/-- With the greatest exponent the mantissa decides: it is carried out of fifty-three bits from half
a unit below on. -/
theorem mantissaOf_eq_iff {num den : Nat} (hnum : 0 < num) (hden : 0 < den)
    (h : exponentOf num den = 971) :
    mantissaOf num den = 2 ^ 53 ↔ (overflowBound : ℚ) ≤ num / den := by
  have hcarry : mantissaOf num den = 2 ^ 53 ↔ 2 ^ 53 ≤ mantissaOf num den :=
    ⟨ge_of_eq, (mantissaOf_le hnum hden).antisymm⟩
  rw [hcarry, le_mantissaOf_iff hden (by positivity) (by norm_num), div_eq_quotient_mul,
    cast_overflowBound_eq_mul, h, mul_le_mul_iff_left₀ (by positivity)]
  push_cast
  rfl

/-- There is no double for a rational exactly if it is at least half a unit above the
largest. -/
theorem round_eq_none_iff (num : Nat) {den : Nat} (hden : 0 < den) :
    round num den = none ↔ (overflowBound : ℚ) ≤ num / den := by
  rcases Nat.eq_zero_or_pos num with rfl | hnum
  · rw [round, if_pos rfl, Nat.cast_zero, zero_div]
    exact iff_of_false (Option.some_ne_none _) (not_le.mpr (Nat.cast_pos.mpr overflowBound_pos))
  rw [round_eq_none_iff_exponent hnum hden]
  rcases Int.lt_trichotomy (exponentOf num den) 971 with he | he | he
  · exact iff_of_false (by omega) (not_le.mpr (div_lt_overflowBound hnum hden he))
  · simp only [he, lt_irrefl, false_or, true_and]
    exact mantissaOf_eq_iff hnum hden he
  · exact iff_of_true (.inl he) (overflowBound_le_div hnum hden he)

/-! ### The nearest double -/

/-- The rational that a double is. -/
def magnitude (b : Binary64) : ℚ :=
  b.mantissa * 2 ^ b.exponent

/-- Magnitudes of finite doubles: fifty-three bits, and an exponent in range. -/
structure IsDouble (b : Binary64) : Prop where
  mantissa_lt : b.mantissa < 2 ^ 53
  le_exponent : -1074 ≤ b.exponent
  exponent_le : b.exponent ≤ 971

theorem isDouble_of_round {num den : Nat} {b : Binary64} (hden : 0 < den)
    (h : round num den = some b) : b.IsDouble := by
  rcases Nat.eq_zero_or_pos num with rfl | hnum
  · obtain rfl : zero = b := Option.some.inj h
    exact ⟨by decide, by decide, by decide⟩
  have hle := mantissaOf_le hnum hden
  have hleast := exponentOf_ge num den
  simp only [round_eq hnum, twoPow_eq] at h
  by_cases hcarry : mantissaOf num den = 2 ^ 53
  · simp only [hcarry, if_true] at h
    rw [if_neg (by positivity)] at h
    split_ifs at h with hlarge
    obtain rfl := Option.some.inj h
    exact ⟨Nat.pow_lt_pow_right (by decide) (by decide), by show _ ≤ _ + 1; omega,
      not_lt.mp hlarge⟩
  · simp only [hcarry, if_false] at h
    split_ifs at h with hzero hlarge <;> obtain rfl := Option.some.inj h
    · exact ⟨by decide, by decide, by decide⟩
    · exact ⟨lt_of_le_of_ne hle hcarry, hleast, not_lt.mp hlarge⟩

/-- A carry does not change what the mantissa and the exponent stand for. -/
theorem magnitude_of_round {num den : Nat} {b : Binary64} (hnum : 0 < num)
    (h : round num den = some b) :
    b.magnitude = mantissaOf num den * 2 ^ exponentOf num den := by
  simp only [round_eq hnum, twoPow_eq] at h
  by_cases hcarry : mantissaOf num den = 2 ^ 53
  · simp only [hcarry, if_true] at h
    rw [if_neg (by positivity)] at h
    split_ifs at h
    obtain rfl := Option.some.inj h
    rw [magnitude, hcarry, zpow_add_one₀ two_ne_zero]
    push_cast
    ring
  · simp only [hcarry, if_false] at h
    split_ifs at h with hzero <;> obtain rfl := Option.some.inj h
    · simp [magnitude, zero, hzero]
    · rfl

/-- A double with an exponent that is no less is a multiple of the unit. -/
theorem exists_magnitude_eq_mul {b : Binary64} {e : Int} (h : e ≤ b.exponent) :
    ∃ k : Int, b.magnitude = k * 2 ^ e := by
  obtain ⟨k, hk⟩ := Int.eq_ofNat_of_zero_le (sub_nonneg.mpr h)
  refine ⟨b.mantissa * 2 ^ k, ?_⟩
  rw [magnitude, show b.exponent = k + e by omega, zpow_add₀ two_ne_zero, zpow_natCast]
  push_cast
  ring

/-- A double with a lesser exponent is at most `2 ^ 52` units. -/
theorem magnitude_le_of_exponent_lt {b : Binary64} {e : Int} (hmantissa : b.mantissa < 2 ^ 53)
    (h : b.exponent < e) : b.magnitude ≤ 2 ^ 52 * 2 ^ e :=
  calc b.magnitude
      ≤ 2 ^ 53 * 2 ^ (e - 1) := by
        refine mul_le_mul ?_ (zpow_le_zpow_right₀ (by norm_num) (by omega)) (by positivity)
          (by positivity)
        exact_mod_cast hmantissa.le
    _ = 2 ^ 52 * 2 ^ e := by
        rw [zpow_sub_one₀ two_ne_zero]
        ring

/-- No double lies nearer to a rational than the one it is rounded to. -/
theorem round_nearest {num den : Nat} {b : Binary64} (hden : 0 < den)
    (h : round num den = some b) {other : Binary64} (hother : other.IsDouble) :
    |b.magnitude - num / den| ≤ |other.magnitude - num / den| := by
  rcases Nat.eq_zero_or_pos num with rfl | hnum
  · obtain rfl : zero = b := Option.some.inj h
    rw [show zero.magnitude - ((0 : Nat) : ℚ) / den = 0 by simp [magnitude, zero], abs_zero]
    exact abs_nonneg _
  obtain ⟨hd, hunscaled⟩ := unscale_spec num hden (exponentOf num den)
  have hnear (k : Int) : |(mantissaOf num den : ℚ) - quotient num den| ≤
      |(k : ℚ) - quotient num den| := by
    rw [quotient, ← hunscaled]
    exact abs_roundDiv_sub_le hd k
  have hscaled (x : ℚ) : |x * 2 ^ exponentOf num den - num / den| =
      |x - quotient num den| * 2 ^ exponentOf num den := by
    rw [div_eq_quotient_mul, ← sub_mul, abs_mul, abs_of_pos (zpow_pos (zero_lt_two' ℚ) _)]
  rw [magnitude_of_round hnum h, hscaled]
  rcases le_or_gt (exponentOf num den) other.exponent with hle | hlt
  · obtain ⟨k, hk⟩ := exists_magnitude_eq_mul hle
    rw [hk, hscaled]
    exact mul_le_mul_of_nonneg_right (hnear k) (by positivity)
  · -- `2 ^ 52` units lie between the other double and the rational
    have hbelow := magnitude_le_of_exponent_lt hother.mantissa_lt hlt
    have hfloor := le_quotient hnum hden (hother.le_exponent.trans_lt hlt)
    have hwithin := hnear ((2 ^ 52 : Nat) : Int)
    rw [Int.cast_natCast, Nat.cast_pow, Nat.cast_ofNat, abs_sub_comm (2 ^ 52),
      abs_of_nonneg (sub_nonneg.mpr hfloor)] at hwithin
    calc |(mantissaOf num den : ℚ) - quotient num den| * 2 ^ exponentOf num den
        ≤ (quotient num den - 2 ^ 52) * 2 ^ exponentOf num den :=
          mul_le_mul_of_nonneg_right hwithin (by positivity)
      _ ≤ num / den - other.magnitude := by rw [div_eq_quotient_mul]; linarith
      _ ≤ |other.magnitude - num / den| := by rw [abs_sub_comm]; exact le_abs_self _

end AgentMarkup.Decimal.Binary64
