import AgentMarkup.Token.Scan

/-!
The characters of names. Letters, the characters of names and those of attribute names lie
between `-` and `z`, where no blank is (`not_isBlank_of_isAttrChar`) and none of the marks
of a tag belongs to them.
-/

set_option autoImplicit false
set_option relaxedAutoImplicit false

namespace AgentMarkup.Token

theorem isAlpha_iff (c : Char) : c.isAlpha = true ↔
    (65 ≤ c.toNat ∧ c.toNat ≤ 90) ∨ (97 ≤ c.toNat ∧ c.toNat ≤ 122) := by
  show (decide (c.val ≥ 'A'.val ∧ c.val ≤ 'Z'.val) ||
    (decide (c.val ≥ 'a'.val) && decide (c.val ≤ 'z'.val))) = true ↔ _
  rw [Bool.or_eq_true, Bool.and_eq_true, decide_eq_true_eq, decide_eq_true_eq, decide_eq_true_eq]
  rfl

theorem isDigit_iff (c : Char) : c.isDigit = true ↔ 48 ≤ c.toNat ∧ c.toNat ≤ 57 := by
  simp only [Char.isDigit, Bool.and_eq_true, decide_eq_true_eq, Char.toNat,
    UInt32.le_iff_toNat_le, ge_iff_le]
  rfl

theorem isAttrChar_iff (c : Char) : isAttrChar c = true ↔
    c.isAlpha = true ∨ c.isDigit = true ∨ c = '-' ∨ c = '_' ∨ c = ':' := by
  simp [isAttrChar, Char.isAlphanum, or_assoc]

theorem isNameChar_iff (c : Char) : isNameChar c = true ↔
    c.isAlpha = true ∨ c.isDigit = true ∨ c = '-' := by
  simp [isNameChar, Char.isAlphanum, or_assoc]

theorem isAttrStart_iff (c : Char) : isAttrStart c = true ↔
    c.isAlpha = true ∨ c = '_' ∨ c = ':' := by
  simp [isAttrStart, or_assoc]

theorem isAttrChar_of_isNameChar {c : Char} (h : isNameChar c = true) : isAttrChar c = true := by
  rw [isNameChar_iff] at h
  rw [isAttrChar_iff]
  rcases h with h | h | h
  · exact Or.inl h
  · exact Or.inr (Or.inl h)
  · exact Or.inr (Or.inr (Or.inl h))

theorem isAttrChar_of_isAttrStart {c : Char} (h : isAttrStart c = true) : isAttrChar c = true := by
  rw [isAttrStart_iff] at h
  rw [isAttrChar_iff]
  rcases h with h | h | h
  · exact Or.inl h
  · exact Or.inr (Or.inr (Or.inr (Or.inl h)))
  · exact Or.inr (Or.inr (Or.inr (Or.inr h)))

theorem isNameChar_of_isAlpha {c : Char} (h : c.isAlpha = true) : isNameChar c = true :=
  (isNameChar_iff c).mpr (Or.inl h)

theorem toNat_of_isAttrChar {c : Char} (h : isAttrChar c = true) :
    45 ≤ c.toNat ∧ c.toNat ≤ 122 ∧ c.toNat ≠ 47 ∧ (c.toNat < 59 ∨ 65 ≤ c.toNat) := by
  rw [isAttrChar_iff, isAlpha_iff, isDigit_iff] at h
  rcases h with h | h | rfl | rfl | rfl
  · omega
  · omega
  · decide
  · decide
  · decide

theorem toNat_of_isBlank {c : Char} (h : Text.isBlank c = true) :
    c.toNat ≤ 32 ∨ 133 ≤ c.toNat := by
  simp only [Text.isBlank, Bool.or_eq_true, Bool.and_eq_true, decide_eq_true_eq,
    beq_iff_eq] at h
  omega

theorem not_isBlank_of_isAttrChar {c : Char} (h : isAttrChar c = true) :
    Text.isBlank c = false := by
  have hrange := toNat_of_isAttrChar h
  rw [Bool.eq_false_iff]
  intro hblank
  have := toNat_of_isBlank hblank
  omega

theorem not_isNameChar_of_isBlank {c : Char} (h : Text.isBlank c = true) :
    isNameChar c = false := by
  rw [Bool.eq_false_iff]
  intro hname
  rw [not_isBlank_of_isAttrChar (isAttrChar_of_isNameChar hname)] at h
  exact absurd h (by decide)

theorem ne_marks_of_isBlank {c : Char} (h : Text.isBlank c = true) :
    c ≠ '<' ∧ c ≠ '/' ∧ c ≠ '>' ∧ c.isAlpha = false := by
  have hrange := toNat_of_isBlank h
  refine ⟨?_, ?_, ?_, ?_⟩
  · rintro rfl
    exact absurd h (by decide)
  · rintro rfl
    exact absurd h (by decide)
  · rintro rfl
    exact absurd h (by decide)
  · rw [Bool.eq_false_iff, ne_eq, isAlpha_iff]
    omega

theorem ne_marks_of_isAttrChar {c : Char} (h : isAttrChar c = true) :
    c ≠ '<' ∧ c ≠ '/' ∧ c ≠ '>' ∧ c ≠ '=' := by
  refine ⟨?_, ?_, ?_, ?_⟩ <;>
  · rintro rfl
    exact absurd h (by decide)

end AgentMarkup.Token
