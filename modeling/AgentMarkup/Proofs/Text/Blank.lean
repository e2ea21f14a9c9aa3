import AgentMarkup.Text.Blank
import Mathlib.Data.List.DropRight
import Mathlib.Data.List.TakeWhile

/-!
Trimming. What trims to nothing is blank throughout (`trimBy_eq_nil_iff`), and blanks put
around a trimmed text are taken off again (`trimBy_append_append`).
-/

set_option autoImplicit false
set_option relaxedAutoImplicit false

namespace AgentMarkup.Text

variable {α : Type} {p : α → Bool}

theorem dropEndWhile_append_of_all {l blanks : List α} (h : ∀ a ∈ blanks, p a = true) :
    dropEndWhile p (l ++ blanks) = dropEndWhile p l := by
  have hreverse : ∀ a ∈ blanks.reverse, p a = true := fun a ha ↦ h a (List.mem_reverse.mp ha)
  rw [dropEndWhile, dropEndWhile, List.reverse_append, List.dropWhile_append_of_pos hreverse]

theorem trimBy_eq_nil_iff {l : List α} : trimBy p l = [] ↔ ∀ a ∈ l, p a = true := by
  constructor
  · intro h
    have hall : ∀ a ∈ l.dropWhile p, p a = true := by
      intro a ha
      rw [trimBy, dropEndWhile, List.reverse_eq_nil_iff, List.dropWhile_eq_nil_iff] at h
      exact h a (List.mem_reverse.mpr ha)
    have hnil : l.dropWhile p = [] := by
      cases hdrop : l.dropWhile p with
      | nil => rfl
      | cons a rest =>
        have hhead := List.head_dropWhile_not p (w := by rw [hdrop]; exact List.cons_ne_nil a rest)
        simp only [hdrop, List.head_cons] at hhead
        rw [hdrop] at hall
        simp [hall a List.mem_cons_self] at hhead
    exact List.dropWhile_eq_nil_iff.mp hnil
  · intro h
    rw [trimBy, List.dropWhile_eq_nil_iff.mpr h]
    rfl

theorem dropEndWhile_sublist (p : α → Bool) (l : List α) : (dropEndWhile p l).Sublist l := by
  have h := (List.dropWhile_sublist (l := l.reverse) p).reverse
  rwa [List.reverse_reverse] at h

theorem trimBy_sublist (p : α → Bool) (l : List α) : (trimBy p l).Sublist l :=
  (dropEndWhile_sublist p _).trans (List.dropWhile_sublist p)

/-- Trimming takes blanks off both ends. -/
theorem exists_eq_append_trimBy (p : α → Bool) (l : List α) :
    ∃ before after, (∀ a ∈ before, p a = true) ∧ (∀ a ∈ after, p a = true) ∧
      l = before ++ (trimBy p l ++ after) := by
  refine ⟨l.takeWhile p, ((l.dropWhile p).reverse.takeWhile p).reverse,
    fun a ↦ List.mem_takeWhile_imp, fun a ha ↦ ?_, ?_⟩
  · exact List.mem_takeWhile_imp (List.mem_reverse.mp ha)
  · rw [trimBy, dropEndWhile, ← List.reverse_append, List.takeWhile_append_dropWhile,
      List.reverse_reverse, List.takeWhile_append_dropWhile]

theorem dropEndWhile_dropEndWhile (p : α → Bool) (l : List α) :
    dropEndWhile p (dropEndWhile p l) = dropEndWhile p l := by
  rw [dropEndWhile, dropEndWhile, List.reverse_reverse, List.dropWhile_idempotent]

/-- A member that is not dropped from the end stays at the head. -/
theorem dropEndWhile_cons_of_neg {a : α} (ha : ¬ p a = true) (l : List α) :
    dropEndWhile p (a :: l) = a :: dropEndWhile p l := by
  rw [dropEndWhile, dropEndWhile, List.reverse_cons, List.dropWhile_append,
    List.dropWhile_cons_of_neg ha]
  split <;> simp_all

/-- A text that was trimmed is trimmed. -/
theorem trimBy_trimBy (p : α → Bool) (l : List α) : trimBy p (trimBy p l) = trimBy p l := by
  have hstart : (trimBy p l).dropWhile p = trimBy p l := by
    rw [trimBy]
    cases hdrop : l.dropWhile p with
    | nil => rfl
    | cons a rest =>
      have ha := List.head_dropWhile_not p (w := by rw [hdrop]; exact List.cons_ne_nil a rest)
      simp only [hdrop, List.head_cons] at ha
      rw [dropEndWhile_cons_of_neg (by simp [ha]), List.dropWhile_cons_of_neg (by simp [ha])]
  calc trimBy p (trimBy p l) = dropEndWhile p ((trimBy p l).dropWhile p) := rfl
    _ = dropEndWhile p (trimBy p l) := by rw [hstart]
    _ = trimBy p l := dropEndWhile_dropEndWhile p _

/-- Trimming looks at each member through what it is mapped to. -/
theorem map_trimBy {β : Type} (f : α → β) (q : β → Bool) (l : List α) :
    (trimBy (q ∘ f) l).map f = trimBy q (l.map f) := by
  rw [trimBy, trimBy, dropEndWhile, dropEndWhile, List.dropWhile_map, ← List.map_reverse,
    List.dropWhile_map, List.map_reverse]

/-- What trims to itself does not begin with a blank. -/
theorem dropWhile_eq_self_of_trimBy {l : List α} (h : trimBy p l = l) : l.dropWhile p = l := by
  refine (List.dropWhile_sublist p).eq_of_length_le ?_
  calc l.length = (trimBy p l).length := by rw [h]
    _ ≤ (l.dropWhile p).length := (dropEndWhile_sublist p _).length_le

theorem trimBy_append_append {l before after : List α} (hbefore : ∀ a ∈ before, p a = true)
    (hafter : ∀ a ∈ after, p a = true) (h : trimBy p l = l) :
    trimBy p (before ++ (l ++ after)) = l := by
  have hdrop := dropWhile_eq_self_of_trimBy h
  cases l with
  | nil =>
    rw [List.nil_append, trimBy_eq_nil_iff]
    intro a ha
    exact (List.mem_append.mp ha).elim (hbefore a) (hafter a)
  | cons a rest =>
    have ha : ¬ p a = true := by
      intro ha
      have hlength := congrArg List.length hdrop
      rw [List.dropWhile_cons_of_pos ha] at hlength
      have := (List.dropWhile_sublist (l := rest) p).length_le
      simp only [List.length_cons] at hlength
      omega
    rw [trimBy, List.dropWhile_append_of_pos hbefore, List.cons_append,
      List.dropWhile_cons_of_neg ha, ← List.cons_append, dropEndWhile_append_of_all hafter]
    rw [trimBy, hdrop] at h
    exact h

/-- A text is blank if it trims to nothing. -/
theorem isBlankText_eq_true_iff {s : String} : isBlankText s = true ↔ trim s = "" := by
  rw [isBlankText, trim, ← String.ofList_nil, String.ofList_inj, trimBy_eq_nil_iff,
    List.all_eq_true]

theorem trimBy_toList_of_trim {s : String} (h : trim s = s) :
    trimBy isBlank s.toList = s.toList := by
  rw [trim] at h
  have := congrArg String.toList h
  rwa [String.toList_ofList] at this

end AgentMarkup.Text
