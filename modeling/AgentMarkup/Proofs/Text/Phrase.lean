import AgentMarkup.Proofs.Text.Blank
import Mathlib.Data.List.Forall2
import Mathlib.Tactic.SplitIfs

/-!
The first word of a text and what follows it. A text that is not blank is a word, and a remainder
with no blank at its ends, with blanks around and between them (`exists_phrase`). Cutting the
trimmed text at its first blank finds the two (`Phrase.splitAtBlank_trim`), so there are no others.

A word spells another one in any letter case if each of its letters is the small or the capital
one; for a word without capitals this is what comparing in small letters tests
(`lowercase_eq_iff`).
-/

set_option autoImplicit false
set_option relaxedAutoImplicit false

namespace AgentMarkup.Text

/-! ### Trimmed lists -/

section

variable {α : Type} {p : α → Bool} {l : List α}

theorem dropWhile_eq_self_iff_head? :
    l.dropWhile p = l ↔ ∀ a ∈ l.head?, p a = false := by
  cases l with
  | nil => simp
  | cons a rest =>
    have hlonger : rest.dropWhile p ≠ a :: rest := fun heq ↦ by
      have hlength := (List.dropWhile_sublist (l := rest) p).length_le
      rw [heq, List.length_cons] at hlength
      omega
    cases ha : p a <;> simp [ha, hlonger]

/-- A list is trimmed if nothing at its ends would be taken off. -/
theorem trimBy_eq_self_iff :
    trimBy p l = l ↔ (∀ a ∈ l.head?, p a = false) ∧ ∀ a ∈ l.getLast?, p a = false := by
  have hlast : dropEndWhile p l = l ↔ ∀ a ∈ l.getLast?, p a = false := by
    rw [dropEndWhile, List.reverse_eq_iff, dropWhile_eq_self_iff_head?, List.head?_reverse]
  rw [← dropWhile_eq_self_iff_head?, ← hlast]
  constructor
  · intro h
    have hdrop := dropWhile_eq_self_of_trimBy h
    rw [trimBy, hdrop] at h
    exact ⟨hdrop, h⟩
  · rintro ⟨hdrop, hdropEnd⟩
    rw [trimBy, hdrop, hdropEnd]

end

/-! ### Words -/

/-- Whether a text is a word and a remainder, with blanks around and between them. The word has no
blank, and the remainder neither begins nor ends with one. -/
structure Phrase (text word rest : String) : Prop where
  spelled : ∃ before gap after : List Char,
    text.toList = before ++ (word.toList ++ (gap ++ (rest.toList ++ after))) ∧
      (∀ c ∈ before, isBlank c = true) ∧ (∀ c ∈ gap, isBlank c = true) ∧
      (∀ c ∈ after, isBlank c = true) ∧ (rest ≠ "" → gap ≠ [])
  word_ne : word ≠ ""
  word_free : ∀ c ∈ word.toList, isBlank c = false
  rest_head : ∀ c ∈ rest.toList.head?, isBlank c = false
  rest_last : ∀ c ∈ rest.toList.getLast?, isBlank c = false

variable {text word rest : String}

theorem toList_ne_nil_iff {s : String} : s.toList ≠ [] ↔ s ≠ "" := by
  rw [ne_eq, ne_eq, ← String.toList_inj]
  rfl

theorem trim_eq_ofList {before l after : List Char} (hbefore : ∀ c ∈ before, isBlank c = true)
    (hafter : ∀ c ∈ after, isBlank c = true) (h : trimBy isBlank l = l)
    (htext : text.toList = before ++ (l ++ after)) : trim text = String.ofList l := by
  rw [trim, htext, trimBy_append_append hbefore hafter h]

theorem trimBy_word {l : List Char} (h : ∀ c ∈ l, isBlank c = false) : trimBy isBlank l = l :=
  trimBy_eq_self_iff.mpr
    ⟨fun c hc ↦ h c (List.mem_of_head? hc), fun c hc ↦ h c (List.mem_of_getLast? hc)⟩

theorem splitAtBlank_word {l : List Char} (h : ∀ c ∈ l, isBlank c = false) :
    splitAtBlank (String.ofList l) = (String.ofList l, none) := by
  have hinside : l.dropWhile (fun c ↦ !isBlank c) = [] :=
    List.dropWhile_eq_nil_iff.mpr fun c hc ↦ by rw [h c hc]; rfl
  rw [splitAtBlank, String.toList_ofList, hinside]

theorem splitAtBlank_append {l rest : List Char} {blank : Char}
    (h : ∀ c ∈ l, isBlank c = false) (hblank : isBlank blank = true) :
    splitAtBlank (String.ofList (l ++ blank :: rest)) =
      (String.ofList l, some (String.ofList rest)) := by
  have hinside : ∀ c ∈ l, (!isBlank c) = true := fun c hc ↦ by rw [h c hc]; rfl
  have hdrop : (blank :: rest).dropWhile (fun c ↦ !isBlank c) = blank :: rest :=
    List.dropWhile_cons_of_neg (by simp [hblank])
  have htake : (blank :: rest).takeWhile (fun c ↦ !isBlank c) = [] :=
    List.takeWhile_cons_of_neg (by simp [hblank])
  rw [splitAtBlank, String.toList_ofList, List.dropWhile_append_of_pos hinside, hdrop,
    List.takeWhile_append_of_pos hinside, htake, List.append_nil]

/-- The word and the remainder of a text are found by cutting the trimmed text at its first
blank. -/
theorem Phrase.splitAtBlank_trim (h : Phrase text word rest) :
    trim text ≠ "" ∧ ∃ tail, splitAtBlank (trim text) = (word, tail) ∧
      tail.elim "" trim = rest := by
  obtain ⟨⟨before, gap, after, htext, hbefore, hgap, hafter, hgap_ne⟩, hword, hfree, hhead,
    hlast⟩ := h
  obtain ⟨first, more, hchars⟩ := List.exists_cons_of_ne_nil (toList_ne_nil_iff.mpr hword)
  by_cases hrest : rest = ""
  · subst hrest
    have hblank : ∀ c ∈ gap ++ after, isBlank c = true := fun c hc ↦
      (List.mem_append.mp hc).elim (hgap c) (hafter c)
    have htrim := trim_eq_ofList hbefore hblank (trimBy_word hfree) htext
    rw [htrim, splitAtBlank_word hfree, String.ofList_toList]
    exact ⟨hword, none, rfl, rfl⟩
  · obtain ⟨blank, gap, rfl⟩ := List.exists_cons_of_ne_nil (hgap_ne hrest)
    have hcore : trimBy isBlank (word.toList ++ (blank :: (gap ++ rest.toList))) =
        word.toList ++ (blank :: (gap ++ rest.toList)) := by
      refine trimBy_eq_self_iff.mpr ⟨fun c hc ↦ hfree c ?_, fun c hc ↦ hlast c ?_⟩
      · rw [hchars] at hc ⊢
        exact List.mem_of_head? hc
      · rw [← List.cons_append, ← List.append_assoc,
          List.getLast?_append_of_ne_nil _ (toList_ne_nil_iff.mpr hrest)] at hc
        exact hc
    have htrim := trim_eq_ofList hbefore hafter hcore (by rw [htext]; simp)
    have hremainder : trim (String.ofList (gap ++ rest.toList)) = rest := by
      have hgap' : ∀ c ∈ gap, isBlank c = true := fun c hc ↦ hgap c (List.mem_cons_of_mem _ hc)
      have hrest' := trimBy_eq_self_iff.mpr ⟨hhead, hlast⟩
      have htext' : (String.ofList (gap ++ rest.toList)).toList = gap ++ (rest.toList ++ []) := by
        rw [String.toList_ofList, List.append_nil]
      have hnil : ∀ c ∈ ([] : List Char), isBlank c = true := fun c hc ↦
        absurd hc List.not_mem_nil
      rw [trim_eq_ofList hgap' hnil hrest' htext', String.ofList_toList]
    rw [htrim, splitAtBlank_append hfree (hgap blank List.mem_cons_self), String.ofList_toList]
    refine ⟨?_, some _, rfl, hremainder⟩
    rw [← toList_ne_nil_iff, String.toList_ofList, hchars]
    exact List.cons_ne_nil _ _

theorem Phrase.unique {word' rest' : String} (h : Phrase text word rest)
    (h' : Phrase text word' rest') : word' = word ∧ rest' = rest := by
  obtain ⟨-, tail, hsplit, rfl⟩ := h.splitAtBlank_trim
  obtain ⟨-, tail', hsplit', rfl⟩ := h'.splitAtBlank_trim
  obtain ⟨rfl, rfl⟩ := Prod.mk.inj (hsplit'.symm.trans hsplit)
  exact ⟨rfl, rfl⟩

/-- A text that is not blank is a word and a remainder. -/
theorem exists_phrase (h : ¬ ∀ c ∈ text.toList, isBlank c = true) :
    ∃ word rest, Phrase text word rest := by
  have hne : trimBy isBlank text.toList ≠ [] := mt trimBy_eq_nil_iff.mp h
  obtain ⟨before, after, hbefore, hafter, htext⟩ := exists_eq_append_trimBy isBlank text.toList
  have htrimmed := trimBy_eq_self_iff.mp (trimBy_trimBy isBlank text.toList)
  generalize trimBy isBlank text.toList = core at hne htext htrimmed
  have hfree : ∀ c ∈ core.takeWhile (fun c ↦ !isBlank c), isBlank c = false := fun c hc ↦ by
    simpa using List.mem_takeWhile_imp hc
  have hword : core.takeWhile (fun c ↦ !isBlank c) ≠ [] := by
    obtain ⟨first, more, rfl⟩ := List.exists_cons_of_ne_nil hne
    rw [List.takeWhile_cons_of_pos (by simp [htrimmed.1 first rfl])]
    exact List.cons_ne_nil _ _
  have hcore := List.takeWhile_append_dropWhile (p := fun c ↦ !isBlank c) (l := core)
  have hstop := List.head?_dropWhile_not (fun c ↦ !isBlank c) core
  generalize core.takeWhile (fun c ↦ !isBlank c) = word at hfree hword hcore
  generalize core.dropWhile (fun c ↦ !isBlank c) = tail at hcore hstop
  obtain ⟨gap, blanks, hgap, hblanks, htail⟩ := exists_eq_append_trimBy isBlank tail
  have hrest := trimBy_eq_self_iff.mp (trimBy_trimBy isBlank tail)
  refine ⟨String.ofList word, String.ofList (trimBy isBlank tail),
    ⟨before, gap, blanks ++ after, ?_, hbefore, hgap, fun c hc ↦ ?_, ?_⟩, ?_, ?_, ?_, ?_⟩
  · rw [String.toList_ofList, String.toList_ofList, htext, ← hcore]
    conv_lhs => rw [htail]
    simp only [List.append_assoc]
  · exact (List.mem_append.mp hc).elim (hblanks c) (hafter c)
  · -- what comes after the word begins with a blank, and the remainder does not
    intro hne hnil
    rw [ne_eq, ← String.toList_inj, String.toList_ofList] at hne
    obtain ⟨c, more, hc⟩ := List.exists_cons_of_ne_nil hne
    have hfilled := hrest.1 c (by rw [hc]; rfl)
    rw [hnil, List.nil_append, hc] at htail
    rw [htail] at hstop
    simp [hfilled] at hstop
  · rwa [← toList_ne_nil_iff, String.toList_ofList]
  · rwa [String.toList_ofList]
  · rw [String.toList_ofList]
    exact hrest.1
  · rw [String.toList_ofList]
    exact hrest.2

/-! ### Letter case -/

/-- Whether a word is another one, with small or capital letters throughout. -/
def InAnyCase (word command : String) : Prop :=
  List.Forall₂ (fun c d ↦ c = d ∨ c = d.toUpper) word.toList command.toList

theorem isUpper_iff_val (c : Char) : c.isUpper = true ↔ 'A'.val ≤ c.val ∧ c.val ≤ 'Z'.val :=
  decide_eq_true_iff

theorem isLower_iff_val (c : Char) : c.isLower = true ↔ 'a'.val ≤ c.val ∧ c.val ≤ 'z'.val := by
  show (decide (c.val ≥ 'a'.val) && decide (c.val ≤ 'z'.val)) = true ↔ _
  rw [Bool.and_eq_true, decide_eq_true_eq, decide_eq_true_eq]

theorem isUpper_iff (c : Char) : c.isUpper = true ↔ 65 ≤ c.toNat ∧ c.toNat ≤ 90 := by
  rw [isUpper_iff_val, UInt32.le_iff_toNat_le, UInt32.le_iff_toNat_le]
  rfl

theorem isLower_iff (c : Char) : c.isLower = true ↔ 97 ≤ c.toNat ∧ c.toNat ≤ 122 := by
  rw [isLower_iff_val, UInt32.le_iff_toNat_le, UInt32.le_iff_toNat_le]
  rfl

theorem toNat_toLower (c : Char) :
    c.toLower.toNat = if c.isUpper then c.toNat + 32 else c.toNat := by
  split_ifs with h
  · have hle := ((isUpper_iff c).mp h).2
    have hlower : c.toLower = _ := dif_pos ((isUpper_iff_val c).mp h)
    have hshift : ('a'.val - 'A'.val).toNat = 32 := by decide
    rw [hlower, Char.toNat, UInt32.toNat_add, hshift]
    exact Nat.mod_eq_of_lt (Nat.lt_of_le_of_lt (Nat.add_le_add_right hle 32) (by decide))
  · exact congrArg Char.toNat (dif_neg (mt (isUpper_iff_val c).mpr h))

theorem toNat_toUpper (c : Char) :
    c.toUpper.toNat = if c.isLower then c.toNat - 32 else c.toNat := by
  split_ifs with h
  · have hrange := (isLower_iff c).mp h
    have hupper : c.toUpper = _ := dif_pos ((isLower_iff_val c).mp h)
    have hshift : ('A'.val - 'a'.val).toNat = 4294967264 := by decide
    rw [Char.toNat] at hrange ⊢
    rw [hupper, Char.toNat, UInt32.toNat_add, hshift]
    omega
  · exact congrArg Char.toNat (dif_neg (mt (isLower_iff_val c).mpr h))

theorem toLower_eq_iff {c d : Char} (hd : d.isUpper = false) :
    c.toLower = d ↔ c = d ∨ c = d.toUpper := by
  have hd' : ¬ (65 ≤ d.toNat ∧ d.toNat ≤ 90) := by
    rw [← isUpper_iff, hd]
    exact Bool.false_ne_true
  rw [← Char.toNat_inj, ← Char.toNat_inj, ← Char.toNat_inj, toNat_toLower, toNat_toUpper]
  simp only [isUpper_iff, isLower_iff]
  split_ifs <;> omega

theorem lowercase_eq_iff {word command : String} (h : ∀ c ∈ command.toList, c.isUpper = false) :
    lowercase word = command ↔ InAnyCase word command := by
  rw [lowercase, ← String.toList_inj, String.toList_ofList, InAnyCase]
  generalize word.toList = cs
  generalize command.toList = ds at h
  induction ds generalizing cs with
  | nil => simp
  | cons d ds ih =>
    cases cs with
    | nil => simp
    | cons c cs =>
      rw [List.forall_mem_cons] at h
      rw [List.map_cons, List.cons.injEq, List.forall₂_cons, toLower_eq_iff h.1, ih cs h.2]

end AgentMarkup.Text
