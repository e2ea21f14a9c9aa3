import AgentMarkup.Machine.Canonical
import Mathlib.Data.List.Basic

/-!
The canonical form tells definitions apart. Each of its parts shows where it ends
(`EndsItself`): a number by the mark after its digits, a name by the length before it, a list
by the number of its members. Parts put one after the other and lists of parts inherit this,
so the canonical form has it too, whatever the names look like. That different definitions
have different forms is the case in which nothing follows.
-/

set_option autoImplicit false
set_option relaxedAutoImplicit false

namespace AgentMarkup.Machine

namespace Canonical

variable {α β : Type}

/-- Whether a spelling shows where it ends, whatever comes after it. -/
def EndsItself (spell : α → String) : Prop :=
  ∀ ⦃a b : α⦄ ⦃r r' : String⦄, spell a ++ r = spell b ++ r' → a = b ∧ r = r'

/-! ### Numbers and names -/

theorem isDigit_of_mem_toString {n : Nat} {c : Char} (h : c ∈ (toString n).toList) :
    c.isDigit = true := by
  change c ∈ n.repr.toList at h
  rw [Nat.toList_repr] at h
  exact Nat.isDigit_of_mem_toDigits (by decide) (by decide) h

theorem toString_inj {m n : Nat} (h : (toString m).toList = (toString n).toList) : m = n := by
  change m.repr.toList = n.repr.toList at h
  rw [Nat.toList_repr, Nat.toList_repr] at h
  have hvalue := congrArg (Nat.ofDigitChars 10 · 0) h
  simpa only [Nat.ofDigitChars_toDigits (b := 10) (by decide) (by decide)] using hvalue

/-- Runs of digits that end at the same mark are equal. -/
theorem digits_append_inj {xs ys r r' : List Char} {mark : Char} (hmark : mark.isDigit = false)
    (hxs : ∀ c ∈ xs, c.isDigit = true) (hys : ∀ c ∈ ys, c.isDigit = true)
    (h : xs ++ mark :: r = ys ++ mark :: r') : xs = ys ∧ r = r' := by
  have hrun (zs rest : List Char) (hzs : ∀ c ∈ zs, c.isDigit = true) :
      (zs ++ mark :: rest).takeWhile Char.isDigit = zs := by
    rw [List.takeWhile_append_of_pos hzs, List.takeWhile_cons_of_neg (by simp [hmark]),
      List.append_nil]
  have hdigits : xs = ys := by rw [← hrun xs r hxs, h, hrun ys r' hys]
  subst hdigits
  exact ⟨rfl, (List.cons.inj (List.append_cancel_left h)).2⟩

/-- A number ends at the first character that is no digit. -/
theorem endsItself_number (mark : String) (c : Char) (hmark : mark.toList = [c])
    (hc : c.isDigit = false) : EndsItself fun n : Nat ↦ toString n ++ mark := by
  intro m n r r' h
  have hchars := congrArg String.toList h
  simp only [String.toList_append, hmark, List.append_assoc, List.singleton_append] at hchars
  obtain ⟨hdigits, hrest⟩ := digits_append_inj hc (fun _ ↦ isDigit_of_mem_toString)
    (fun _ ↦ isDigit_of_mem_toString) hchars
  exact ⟨toString_inj hdigits, String.toList_inj.mp hrest⟩

theorem endsItself_count : EndsItself count :=
  endsItself_number "\n" '\n' (by decide) (by decide)

/-- Of two beginnings of one text, those with equally many bytes are equal. -/
theorem append_inj_of_utf8ByteSize_eq {s s' t t' : String} (h : s ++ t = s' ++ t')
    (hsize : s.utf8ByteSize = s'.utf8ByteSize) : s = s' ∧ t = t' := by
  have hempty (u v : String) (cs : List Char) (huv : u.toList = v.toList ++ cs)
      (hbytes : u.utf8ByteSize = v.utf8ByteSize) : u = v := by
    have hu : u = v ++ String.ofList cs := by
      rw [← String.toList_inj, String.toList_append, String.toList_ofList, huv]
    have hcs : (String.ofList cs).utf8ByteSize = 0 := by
      rw [hu, String.utf8ByteSize_append] at hbytes
      omega
    rw [hu, String.utf8ByteSize_eq_zero_iff.mp hcs, String.append_empty]
  have hchars := congrArg String.toList h
  rw [String.toList_append, String.toList_append, List.append_eq_append_iff] at hchars
  have hs : s = s' := by
    obtain ⟨cs, hcs, -⟩ | ⟨cs, hcs, -⟩ := hchars
    · exact (hempty s' s cs hcs hsize.symm).symm
    · exact hempty s s' cs hcs hsize
  subst hs
  exact ⟨rfl, String.append_right_inj s |>.mp h⟩

/-- The length before a name says where it ends, so the name may hold any characters. -/
theorem endsItself_name : EndsItself name := by
  intro s s' r r' h
  have hmarked (u v : String) :
      name u ++ v = toString u.utf8ByteSize ++ ":" ++ (u ++ ("\n" ++ v)) := by
    simp only [name, String.append_assoc]
  rw [hmarked, hmarked] at h
  obtain ⟨hsize, hrest⟩ := endsItself_number ":" ':' (by decide) (by decide) h
  obtain ⟨rfl, htail⟩ := append_inj_of_utf8ByteSize_eq hrest hsize
  exact ⟨rfl, String.append_right_inj "\n" |>.mp htail⟩

/-! ### Parts one after the other -/

theorem EndsItself.append {f : α → String} {g : β → String} (hf : EndsItself f)
    (hg : EndsItself g) : EndsItself fun pair : α × β ↦ f pair.1 ++ g pair.2 := by
  rintro ⟨a, b⟩ ⟨a', b'⟩ r r' h
  simp only [String.append_assoc] at h
  obtain ⟨rfl, hrest⟩ := hf h
  obtain ⟨rfl, hr⟩ := hg hrest
  exact ⟨rfl, hr⟩

theorem EndsItself.comp {f : α → String} (hf : EndsItself f) {g : β → α}
    (hg : Function.Injective g) : EndsItself fun b ↦ f (g b) := by
  intro b b' r r' h
  obtain ⟨heq, hr⟩ := hf h
  exact ⟨hg heq, hr⟩

/-- Equally many parts that end themselves can be told apart one by one. -/
theorem join_append_inj {f : α → String} (hf : EndsItself f) {xs ys : List α} {r r' : String}
    (hlength : xs.length = ys.length)
    (h : String.join (xs.map f) ++ r = String.join (ys.map f) ++ r') : xs = ys ∧ r = r' := by
  induction xs generalizing ys with
  | nil =>
    obtain rfl := List.eq_nil_of_length_eq_zero hlength.symm
    exact ⟨rfl, String.append_right_inj _ |>.mp h⟩
  | cons x xs ih =>
    cases ys with
    | nil => simp at hlength
    | cons y ys =>
      simp only [List.map_cons, String.join_cons, String.append_assoc] at h
      obtain ⟨rfl, hrest⟩ := hf h
      obtain ⟨rfl, hr⟩ := ih (Nat.succ.inj hlength) hrest
      exact ⟨rfl, hr⟩

/-- A list after the number of its members. -/
theorem endsItself_counted {f : α → String} (hf : EndsItself f) :
    EndsItself fun xs : List α ↦ count xs.length ++ String.join (xs.map f) := by
  intro xs ys r r' h
  simp only [String.append_assoc] at h
  obtain ⟨hlength, hrest⟩ := endsItself_count h
  exact join_append_inj hf hlength hrest

theorem entries_injective : Function.Injective (Table.entries (α := α)) := by
  rintro ⟨entries, _⟩ ⟨others, _⟩ rfl
  rfl

/-! ### Rows and definitions -/

theorem endsItself_row : EndsItself row := by
  have hstep : EndsItself fun step : String × String ↦ name step.1 ++ name step.2 :=
    endsItself_name.append endsItself_name
  have hrow := endsItself_name.append ((endsItself_counted hstep).comp entries_injective)
  intro entry entry' r r' h
  refine hrow ?_
  simpa only [row, Table.size, String.append_assoc] using h

theorem endsItself_canonical : EndsItself Definition.canonical := by
  have hparts := (endsItself_name.append (endsItself_counted endsItself_name)).append
    ((endsItself_counted endsItself_row).comp entries_injective)
  have hform := hparts.comp (g := fun d : Definition ↦ ((d.initial, d.states), d.transitions))
    (by
      rintro ⟨initial, states, transitions⟩ ⟨initial', states', transitions'⟩ h
      simp only [Prod.mk.injEq] at h
      obtain ⟨⟨rfl, rfl⟩, rfl⟩ := h
      rfl)
  exact hform

end Canonical

/-- Definitions with the same canonical form have the same initial state, the same states in
the same order, and the same transitions, rows without events included. -/
theorem canonical_inj {a b : Definition} : a.canonical = b.canonical ↔ a = b := by
  constructor
  · intro h
    exact (Canonical.endsItself_canonical (congrArg (· ++ "") h)).1
  · intro h
    rw [h]

end AgentMarkup.Machine
