import AgentMarkup.Proofs.Machine.Canonical
import AgentMarkup.Validation

/-!
Paths can be read back. A path is spelled as an index, then a kind and an index for each step,
and a diagnostic may add the kind of its node and the name of an attribute. If the kinds hold
none of the marks between these parts, the spelling shows what the path is and what was added
to it (`NodePath.display_append_inj`). Names of attributes may hold anything, since they stand
at the end.
-/

set_option autoImplicit false
set_option relaxedAutoImplicit false

namespace AgentMarkup

/-- The characters that stand between the parts of a path. -/
def NodePath.marks : List Char :=
  ['.', '[', ']', '@']

/-- Kinds that hold no mark of a path. -/
def PlainKind (kind : String) : Prop :=
  ∀ c ∈ kind.toList, c ∉ NodePath.marks

namespace NodePath

/-- A run of characters of one sort ends where the first of another sort stands. -/
theorem run_append_inj {p : Char → Bool} {xs ys r r' : List Char}
    (hxs : ∀ c ∈ xs, p c = true) (hys : ∀ c ∈ ys, p c = true)
    (hr : ∀ c ∈ r.head?, p c = false) (hr' : ∀ c ∈ r'.head?, p c = false)
    (h : xs ++ r = ys ++ r') : xs = ys ∧ r = r' := by
  have hrun (zs rest : List Char) (hzs : ∀ c ∈ zs, p c = true)
      (hrest : ∀ c ∈ rest.head?, p c = false) : (zs ++ rest).takeWhile p = zs := by
    rw [List.takeWhile_append_of_pos hzs]
    cases rest with
    | nil => rw [List.takeWhile_nil, List.append_nil]
    | cons c cs =>
      rw [List.takeWhile_cons_of_neg (by simp [hrest c rfl]), List.append_nil]
  have hsame : xs = ys := by rw [← hrun xs r hxs hr, h, hrun ys r' hys hr']
  subst hsame
  exact ⟨rfl, List.append_cancel_left h⟩

/-- A kind ends at the mark after it. -/
theorem kind_append_inj {kind kind' : String} {r r' : List Char} (hkind : PlainKind kind)
    (hkind' : PlainKind kind') (hr : ∀ c ∈ r.head?, c ∈ marks) (hr' : ∀ c ∈ r'.head?, c ∈ marks)
    (h : kind.toList ++ r = kind'.toList ++ r') : kind = kind' ∧ r = r' := by
  obtain ⟨hsame, hrest⟩ := run_append_inj (p := fun c ↦ decide (c ∉ marks))
    (fun c hc ↦ decide_eq_true (hkind c hc)) (fun c hc ↦ decide_eq_true (hkind' c hc))
    (fun c hc ↦ decide_eq_false (not_not.mpr (hr c hc)))
    (fun c hc ↦ decide_eq_false (not_not.mpr (hr' c hc))) h
  exact ⟨String.toList_inj.mp hsame, hrest⟩

/-! ### Steps -/

/-- How the steps of a path are spelled. -/
def spellSteps : List (String × Nat) → List Char
  | [] => []
  | (kind, index) :: rest =>
    '.' :: (kind.toList ++ '[' :: ((toString index).toList ++ ']' :: spellSteps rest))

theorem toList_display (p : NodePath) :
    p.display.toList = "children[".toList ++ ((toString p.first).toList ++
      ']' :: spellSteps p.steps) := by
  have hsteps (steps : List (String × Nat)) :
      (String.join (steps.map fun step ↦ s!".{step.1}[{step.2}]")).toList = spellSteps steps := by
    induction steps with
    | nil => rfl
    | cons step rest ih =>
      rw [List.map_cons, String.join_cons, String.toList_append, ih]
      change ("." ++ step.1 ++ "[" ++ toString step.2 ++ "]").toList ++ spellSteps rest = _
      simp only [String.toList_append, List.append_assoc]
      rfl
  rw [display, String.toList_append, hsteps]
  change ("children[" ++ toString p.first ++ "]").toList ++ spellSteps p.steps = _
  simp only [String.toList_append, List.append_assoc]
  rfl

theorem number_append_inj {m n : Nat} {r r' : List Char}
    (h : (toString m).toList ++ ']' :: r = (toString n).toList ++ ']' :: r') : m = n ∧ r = r' := by
  obtain ⟨hdigits, hrest⟩ := run_append_inj (p := Char.isDigit)
    (fun _ ↦ Machine.Canonical.isDigit_of_mem_toString)
    (fun _ ↦ Machine.Canonical.isDigit_of_mem_toString)
    (by simp) (by simp) h
  exact ⟨Machine.Canonical.toString_inj hdigits, (List.cons.inj hrest).2⟩

/-- What may stand after the steps: nothing, or a kind with nothing or a full stop after it. -/
def Closes (cs : List Char) : Prop :=
  cs = [] ∨ ∃ kind rest, PlainKind kind ∧ cs = '.' :: (kind.toList ++ rest) ∧
    ∀ c ∈ rest.head?, c = '.'

/-- A step is not mistaken for what may stand after the steps. -/
theorem not_closes_step {kind : String} (hkind : PlainKind kind) (index : Nat)
    (rest : List (String × Nat)) (tail : List Char) :
    ¬Closes (spellSteps ((kind, index) :: rest) ++ tail) := by
  rintro (hnone | ⟨other, after, hother, heq, hafter⟩)
  · exact absurd hnone (List.cons_ne_nil _ _)
  · simp only [spellSteps, List.cons_append, List.append_assoc, List.cons.injEq, true_and] at heq
    obtain ⟨-, rfl⟩ := kind_append_inj hkind hother (by simp [marks])
      (fun c hc ↦ hafter c hc ▸ List.mem_cons_self) heq
    exact absurd (hafter '[' rfl) (by decide)

theorem spellSteps_append_inj {steps steps' : List (String × Nat)} {tail tail' : List Char}
    (hplain : ∀ step ∈ steps, PlainKind step.1) (hplain' : ∀ step ∈ steps', PlainKind step.1)
    (htail : Closes tail) (htail' : Closes tail')
    (h : spellSteps steps ++ tail = spellSteps steps' ++ tail') :
    steps = steps' ∧ tail = tail' := by
  induction steps generalizing steps' with
  | nil =>
    cases steps' with
    | nil => exact ⟨rfl, h⟩
    | cons step rest =>
      have hstep := not_closes_step (hplain' step List.mem_cons_self) step.2 rest tail'
      rw [← h] at hstep
      exact absurd htail hstep
  | cons step rest ih =>
    cases steps' with
    | nil =>
      have hstep := not_closes_step (hplain step List.mem_cons_self) step.2 rest tail
      rw [h] at hstep
      exact absurd htail' hstep
    | cons step' rest' =>
      obtain ⟨kind, index⟩ := step
      obtain ⟨kind', index'⟩ := step'
      simp only [spellSteps, List.cons_append, List.append_assoc, List.cons.injEq, true_and] at h
      have hkind : PlainKind kind := hplain _ List.mem_cons_self
      have hkind' : PlainKind kind' := hplain' _ List.mem_cons_self
      obtain ⟨rfl, hindex⟩ := kind_append_inj hkind hkind' (by simp [marks]) (by simp [marks]) h
      obtain ⟨rfl, hrest⟩ := number_append_inj (List.cons.inj hindex).2
      obtain ⟨rfl, rfl⟩ := ih (fun step hstep ↦ hplain step (List.mem_cons_of_mem _ hstep))
        (fun step hstep ↦ hplain' step (List.mem_cons_of_mem _ hstep)) hrest
      exact ⟨rfl, rfl⟩

/-! ### Paths with something added -/

/-- A path through plain kinds can be read back from its spelling, and so can what is added. -/
theorem display_append_inj {p q : NodePath} {s t : String}
    (hp : ∀ step ∈ p.steps, PlainKind step.1) (hq : ∀ step ∈ q.steps, PlainKind step.1)
    (hs : Closes s.toList) (ht : Closes t.toList) (h : p.display ++ s = q.display ++ t) :
    p = q ∧ s = t := by
  obtain ⟨first, steps⟩ := p
  obtain ⟨first', steps'⟩ := q
  have hchars := congrArg String.toList h
  simp only [String.toList_append, toList_display, List.append_assoc, List.cons_append] at hchars
  obtain ⟨rfl, hrest⟩ := number_append_inj (List.append_cancel_left hchars)
  obtain ⟨rfl, htail⟩ := spellSteps_append_inj hp hq hs ht hrest
  exact ⟨rfl, String.toList_inj.mp htail⟩

theorem display_append_ne_empty (p : NodePath) (s : String) : p.display ++ s ≠ "" := by
  intro h
  have hchars := congrArg String.toList h
  rw [String.toList_append, toList_display] at hchars
  exact absurd hchars (by simp)

end NodePath

end AgentMarkup
