import AgentMarkup.Decimal.Literal
import Mathlib.Data.List.TakeWhile

/-!
The grammar of decimal numbers, without the reader. A number is a sign that may be missing,
digits with at most one point among them and at least one digit, and after them nothing or a
mark `e` or `E`, a sign that may be missing and digits, at least one. `Literal.Spells` says which
parts a text has. The reader finds the parts of every number and refuses every other text
(`read_eq_some_iff`).
-/

set_option autoImplicit false
set_option relaxedAutoImplicit false

namespace AgentMarkup.Decimal

/-- Runs of decimal digits, the empty one among them. -/
def IsDigits (run : List Char) : Prop :=
  ∀ c ∈ run, c.isDigit = true

/-- The spellings of a sign; the flag tells the minus from the others. -/
inductive Sign : Bool → List Char → Prop
  | unsigned : Sign false []
  | plus : Sign false ['+']
  | minus : Sign true ['-']

/-- What stands between the whole digits and the exponent, by the digits in it. -/
inductive Fraction : List Char → List Char → Prop
  | absent : Fraction [] []
  | point {digits : List Char} (hdigits : IsDigits digits) : Fraction digits ('.' :: digits)

inductive Exponent : Int → List Char → Prop
  | absent : Exponent 0 []
  | marked {mark : Char} {negative : Bool} {sign digits : List Char}
      (hmark : mark = 'e' ∨ mark = 'E') (hsign : Sign negative sign) (hdigits : IsDigits digits)
      (hne : digits ≠ []) :
      Exponent (if negative then -(digitsValue digits : Int) else digitsValue digits)
        (mark :: (sign ++ digits))

/-- The text is a decimal number, and these are its parts. -/
inductive Literal.Spells : Literal → List Char → Prop
  | parts {negative : Bool} {exponent : Int} {sign whole fraction point mark : List Char}
      (hsign : Sign negative sign) (hwhole : IsDigits whole) (hfraction : Fraction fraction point)
      (hdigit : ¬ (whole = [] ∧ fraction = [])) (hexponent : Exponent exponent mark) :
      Literal.Spells ⟨negative, whole, fraction, exponent⟩ (sign ++ (whole ++ (point ++ mark)))

theorem Fraction.mem {digits point : List Char} (h : Fraction digits point) {c : Char}
    (hc : c ∈ digits) : c ∈ point := by
  cases h with
  | absent => exact hc
  | point => exact List.mem_cons_of_mem _ hc

/-! ### Digits -/

/-- A text that goes on with no digit: it is at its end, or another character comes next. -/
def StopsDigits (rest : List Char) : Prop :=
  ∀ c ∈ rest.head?, c.isDigit = false

theorem isDigits_takeWhile (text : List Char) : IsDigits (text.takeWhile Char.isDigit) :=
  fun _ ↦ List.mem_takeWhile_imp

theorem takeWhile_isDigit_append {run rest : List Char} (hrun : IsDigits run)
    (hrest : StopsDigits rest) : (run ++ rest).takeWhile Char.isDigit = run := by
  rw [List.takeWhile_append_of_pos hrun]
  cases rest with
  | nil => simp
  | cons c rest => simp [hrest c rfl]

theorem dropWhile_isDigit_append {run rest : List Char} (hrun : IsDigits run)
    (hrest : StopsDigits rest) : (run ++ rest).dropWhile Char.isDigit = rest := by
  rw [List.dropWhile_append_of_pos hrun]
  cases rest with
  | nil => simp
  | cons c rest => simp [hrest c rfl]

/-! ### Signs -/

theorem exists_sign (text : List Char) :
    ∃ sign, Sign (takeSign text).1 sign ∧ text = sign ++ (takeSign text).2 := by
  fun_cases takeSign text with
  | case1 rest => exact ⟨['-'], .minus, rfl⟩
  | case2 rest => exact ⟨['+'], .plus, rfl⟩
  | case3 => exact ⟨[], .unsigned, rfl⟩

theorem takeSign_append {negative : Bool} {sign rest : List Char} (hsign : Sign negative sign)
    (hrest : ∀ c ∈ rest.head?, c ≠ '-' ∧ c ≠ '+') :
    takeSign (sign ++ rest) = (negative, rest) := by
  cases hsign with
  | plus => rfl
  | minus => rfl
  | unsigned =>
    rw [List.nil_append]
    fun_cases takeSign rest with
    | case1 rest => exact absurd rfl (hrest '-' rfl).1
    | case2 rest => exact absurd rfl (hrest '+' rfl).2
    | case3 => rfl

theorem ne_sign_of_isDigit {c : Char} (h : c.isDigit = true) : c ≠ '-' ∧ c ≠ '+' := by
  constructor <;> rintro rfl <;> simp at h

theorem IsDigits.head_ne_sign {digits : List Char} (h : IsDigits digits) :
    ∀ c ∈ digits.head?, c ≠ '-' ∧ c ≠ '+' :=
  fun c hc ↦ ne_sign_of_isDigit (h c (List.mem_of_mem_head? hc))

/-! ### Exponents -/

namespace Literal

theorem readExponent_eq_some_iff {text : List Char} {exponent : Int} :
    readExponent text = some exponent ↔ Exponent exponent text := by
  constructor
  · intro h
    cases text with
    | nil =>
      obtain rfl : 0 = exponent := by simpa [readExponent] using h
      exact .absent
    | cons mark rest =>
      obtain ⟨sign, hsign, hrest⟩ := exists_sign rest
      by_cases hmark : mark = 'e' ∨ mark = 'E'
      · simp only [readExponent, if_pos hmark] at h
        split at h
        · cases h
        · rename_i hdigits
          simp only [Bool.or_eq_true, List.isEmpty_iff, Bool.not_eq_true', not_or,
            Bool.not_eq_false, List.all_eq_true] at hdigits
          have hexponent := Exponent.marked hmark hsign hdigits.2 hdigits.1
          rw [← hrest] at hexponent
          rw [← apply_ite some] at h
          cases h
          exact hexponent
      · simp [readExponent, if_neg hmark] at h
  · intro h
    cases h with
    | absent => rfl
    | @marked mark negative sign digits hmark hsign hdigits hne =>
      have hall : digits.all Char.isDigit = true := List.all_eq_true.mpr hdigits
      simp only [readExponent, if_pos hmark, takeSign_append hsign hdigits.head_ne_sign,
        List.isEmpty_eq_false_iff.mpr hne, hall, Bool.not_true, Bool.or_false, Bool.false_eq_true,
        if_false]
      split <;> simp_all

theorem stopsDigits_of_exponent {exponent : Int} {mark : List Char} (h : Exponent exponent mark) :
    StopsDigits mark := by
  intro c hc
  cases h with
  | absent => simp at hc
  | marked hmark =>
    obtain rfl := Option.some.inj hc
    rcases hmark with rfl | rfl <;> rfl

/-! ### The point -/

theorem exists_point (rest : List Char) :
    ∃ point, Fraction (splitFraction rest).1 point ∧ rest = point ++ (splitFraction rest).2 := by
  fun_cases splitFraction rest with
  | case1 rest =>
    refine ⟨'.' :: rest.takeWhile Char.isDigit, .point (isDigits_takeWhile rest), ?_⟩
    rw [List.cons_append, List.takeWhile_append_dropWhile]
  | case2 => exact ⟨[], .absent, rfl⟩

/-- An exponent begins with no point, so a fraction before it is all that is split off. -/
theorem splitFraction_append {fraction point mark : List Char} {exponent : Int}
    (hfraction : Fraction fraction point) (hexponent : Exponent exponent mark) :
    splitFraction (point ++ mark) = (fraction, mark) := by
  have hstops := stopsDigits_of_exponent hexponent
  cases hfraction with
  | point hdigits =>
    simp only [splitFraction, List.cons_append, takeWhile_isDigit_append hdigits hstops,
      dropWhile_isDigit_append hdigits hstops]
  | absent =>
    cases hexponent with
    | absent => rfl
    | marked hmark => rcases hmark with rfl | rfl <;> rfl

theorem stopsDigits_of_fraction {fraction point mark : List Char} {exponent : Int}
    (hfraction : Fraction fraction point) (hexponent : Exponent exponent mark) :
    StopsDigits (point ++ mark) := by
  cases hfraction with
  | absent => exact stopsDigits_of_exponent hexponent
  | point =>
    intro c hc
    obtain rfl := Option.some.inj hc
    rfl

/-- After the sign comes a digit or the point, since a number has a digit before its exponent. -/
theorem head_ne_sign {whole fraction point mark : List Char} (hwhole : IsDigits whole)
    (hfraction : Fraction fraction point) (hdigit : ¬ (whole = [] ∧ fraction = [])) :
    ∀ c ∈ (whole ++ (point ++ mark)).head?, c ≠ '-' ∧ c ≠ '+' := by
  intro c hc
  cases whole with
  | cons d whole =>
    obtain rfl := Option.some.inj hc
    exact ne_sign_of_isDigit (hwhole d List.mem_cons_self)
  | nil =>
    cases hfraction with
    | absent => simp at hdigit
    | point =>
      obtain rfl := Option.some.inj hc
      decide

/-! ### The whole number -/

theorem read_of_spells {l : Literal} {text : List Char} (h : l.Spells text) :
    read text = some l := by
  obtain ⟨hsign, hwhole, hfraction, hdigit, hexponent⟩ := h
  have hstops := stopsDigits_of_fraction hfraction hexponent
  simp only [read, takeSign_append hsign (head_ne_sign hwhole hfraction hdigit),
    takeWhile_isDigit_append hwhole hstops, dropWhile_isDigit_append hwhole hstops,
    splitFraction_append hfraction hexponent, readExponent_eq_some_iff.mpr hexponent,
    Bool.and_eq_true, List.isEmpty_iff, if_neg hdigit, Option.map_some]

theorem spells_of_read {l : Literal} {text : List Char} (h : read text = some l) :
    l.Spells text := by
  obtain ⟨sign, hsign, htext⟩ := exists_sign text
  obtain ⟨point, hfraction, hrest⟩ :=
    exists_point ((takeSign text).2.dropWhile Char.isDigit)
  have hwhole := isDigits_takeWhile (takeSign text).2
  have hsplit : text = sign ++ ((takeSign text).2.takeWhile Char.isDigit ++
      (point ++ (splitFraction ((takeSign text).2.dropWhile Char.isDigit)).2)) := by
    rw [← hrest, List.takeWhile_append_dropWhile, ← htext]
  simp only [read, Bool.and_eq_true, List.isEmpty_iff] at h
  split at h
  · cases h
  · rename_i hdigit
    obtain ⟨exponent, hexponent, rfl⟩ := Option.map_eq_some_iff.mp h
    have hparts :=
      Spells.parts hsign hwhole hfraction hdigit (readExponent_eq_some_iff.mp hexponent)
    rwa [← hsplit] at hparts

theorem read_eq_some_iff {l : Literal} {text : List Char} :
    read text = some l ↔ l.Spells text :=
  ⟨spells_of_read, read_of_spells⟩

/-! ### What a number is written with -/

/-- The characters that numbers are written with. -/
def IsNumeral (c : Char) : Prop :=
  c.isDigit = true ∨ c ∈ ['.', '+', '-', 'e', 'E']

theorem isNumeral_of_sign {negative : Bool} {sign : List Char} (h : Sign negative sign) :
    ∀ c ∈ sign, IsNumeral c := by
  intro c hc
  cases h <;> simp_all [IsNumeral]

theorem isNumeral_of_fraction {fraction point : List Char} (h : Fraction fraction point) :
    ∀ c ∈ point, IsNumeral c := by
  intro c hc
  cases h with
  | absent => simp at hc
  | point hdigits =>
    rcases List.mem_cons.mp hc with rfl | hc
    · exact .inr (by decide)
    · exact .inl (hdigits c hc)

theorem isNumeral_of_exponent {exponent : Int} {mark : List Char} (h : Exponent exponent mark) :
    ∀ c ∈ mark, IsNumeral c := by
  intro c hc
  cases h with
  | absent => simp at hc
  | marked hmark hsign hdigits =>
    rcases List.mem_cons.mp hc with rfl | hc
    · exact .inr (by rcases hmark with rfl | rfl <;> decide)
    · exact (List.mem_append.mp hc).elim (isNumeral_of_sign hsign c) fun hc ↦ .inl (hdigits c hc)

theorem Spells.isNumeral {l : Literal} {text : List Char} (h : l.Spells text) :
    ∀ c ∈ text, IsNumeral c := by
  obtain ⟨hsign, hwhole, hfraction, -, hexponent⟩ := h
  intro c hc
  simp only [List.mem_append] at hc
  rcases hc with hc | hc | hc | hc
  · exact isNumeral_of_sign hsign c hc
  · exact .inl (hwhole c hc)
  · exact isNumeral_of_fraction hfraction c hc
  · exact isNumeral_of_exponent hexponent c hc

theorem Spells.isDigits {l : Literal} {text : List Char} (h : l.Spells text) :
    IsDigits (l.whole ++ l.fraction) := by
  obtain ⟨-, hwhole, hfraction, -, -⟩ := h
  intro c hc
  rcases List.mem_append.mp hc with hc | hc
  · exact hwhole c hc
  · cases hfraction with
    | absent => simp at hc
    | point hdigits => exact hdigits c hc

theorem Spells.exists_digit {l : Literal} {text : List Char} (h : l.Spells text) :
    ∃ c ∈ text, c.isDigit = true := by
  have hdigits := h.isDigits
  obtain ⟨-, -, hfraction, hdigit, -⟩ := h
  obtain ⟨c, hc⟩ := List.exists_mem_of_ne_nil (_ ++ _) (by simpa using hdigit)
  refine ⟨c, List.mem_append_right _ ?_, hdigits c hc⟩
  rcases List.mem_append.mp hc with hc | hc
  · exact List.mem_append_left _ hc
  · exact List.mem_append_right _ (List.mem_append_left _ (hfraction.mem hc))

end Literal

end AgentMarkup.Decimal
