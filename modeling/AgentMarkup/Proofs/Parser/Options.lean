import AgentMarkup.Proofs.Document.Depth
import AgentMarkup.Proofs.Validation.Guarantee

/-!
What parser options can do. There is one tree for an input, the one that is built of all its
tokens, and options only say which findings are held against it. What a reading reports is what
the first stage reports that finds anything (`parse_reports`), each stage taken by itself
(`reports`), so options that ask for less let through all that was let through before. Main
statement: `options_only_filter`.
-/

set_option autoImplicit false
set_option relaxedAutoImplicit false

namespace AgentMarkup.Parser

open Document

variable {options : Options} {r : Registry} {input : String} {tree : Node}

/-! ### Readings that succeed -/

theorem eq_root_whole_of_tree_parse (h : (parse options r input).tree = some tree) :
    tree = (whole (tokenize input)).root := by
  obtain ⟨-, built, hbuild, -, -, rfl⟩ := tree_parse_eq_some_iff.mp h
  rw [eq_whole_of_build hbuild]

/-- Whether one set of options asks for no more than another. -/
structure Options.Laxer (lax options : Options) : Prop where
  strict : lax.strict = true → options.strict = true
  validate : lax.validate = true → options.validate = true
  maxDepth : options.maxDepth ≤ lax.maxDepth

theorem tree_parse_of_laxer {lax : Options} (hlax : lax.Laxer options)
    (h : (parse options r input).tree = some tree) : (parse lax r input).tree = some tree := by
  rw [tree_parse_eq_some_iff] at h ⊢
  obtain ⟨hinput, built, hbuild, hstrict, hvalidate, htree⟩ := h
  exact ⟨hinput, built, build_of_le hlax.maxDepth hbuild, fun h ↦ hstrict (hlax.strict h),
    fun h ↦ hvalidate (hlax.validate h), htree⟩

/-! ### Outcomes -/

/-- Whether the ways to ask an outcome for its success agree. -/
structure Outcome.Consistent (o : Outcome) : Prop where
  tree : o.tree.isSome = true ↔ o.errors = []
  isOk : o.isOk = true ↔ o.errors = []
  ok : (∃ tree, o.result = .ok tree) ↔ o.errors = []
  /-- The result is the tree of the outcome, or else its errors. -/
  result : (∀ tree, o.result = .ok tree ↔ o.tree = some tree) ∧
    ∀ errors, o.result = .error errors ↔ o.errors ≠ [] ∧ o.errors = errors

theorem Outcome.consistent_success (tree : Node) : (Outcome.success tree).Consistent := by
  refine ⟨?_, ?_, ?_, ?_, ?_⟩ <;> simp [success, Outcome.isOk, Outcome.result]

theorem Outcome.consistent_failure {errors : List Diagnostic} (h : errors ≠ []) :
    (Outcome.failure errors).Consistent := by
  refine ⟨?_, ?_, ?_, ?_, ?_⟩ <;> simp [failure, Outcome.isOk, Outcome.result, h]

/-! ### Reports of the stages -/

/-- What each stage reports of an input by itself, in the order of the stages: that there is no
input, the first element that stands too deep, the faults of nesting, and what validation finds. -/
def reports (options : Options) (r : Registry) (input : String) : List (List Diagnostic) :=
  let built := whole (tokenize input)
  [if input = "" then [emptyInput] else [],
    match build options.maxDepth (tokenize input) with
    | .error e => [e.diagnostic]
    | .ok _ => [],
    if options.strict then built.issues.map Issue.diagnostic else [],
    if options.validate then r.validate built.root else []]

/-- The first of some reports that says anything. -/
def firstReport (reports : List (List Diagnostic)) : List Diagnostic :=
  (reports.find? (!·.isEmpty)).getD []

theorem firstReport_cons_nil (rest : List (List Diagnostic)) :
    firstReport ([] :: rest) = firstReport rest := rfl

theorem firstReport_cons_of_ne_nil {report : List Diagnostic} (h : report ≠ [])
    (rest : List (List Diagnostic)) : firstReport (report :: rest) = report := by
  rw [firstReport, List.find?_cons_of_pos (by simpa using h)]
  rfl

/-- Judging a tree reports the first of its two stages that finds anything. -/
theorem judge_reports (options : Options) (r : Registry) (built : Built) :
    (judge options r built).errors = firstReport
      [if options.strict then built.issues.map Issue.diagnostic else [],
        if options.validate then r.validate built.root else []] ∧
      (judge options r built).Consistent := by
  unfold judge
  by_cases hstrict : options.strict = true ∧ built.issues ≠ []
  · have hissues : built.issues.map Issue.diagnostic ≠ [] := by simpa using hstrict.2
    rw [if_pos hstrict, if_pos hstrict.1, firstReport_cons_of_ne_nil hissues]
    exact ⟨rfl, Outcome.consistent_failure hissues⟩
  · have hquiet : (if options.strict then built.issues.map Issue.diagnostic else []) = [] := by
      rw [not_and, not_not] at hstrict
      split_ifs with hasked
      · rw [hstrict hasked, List.map_nil]
      · rfl
    rw [if_neg hstrict, hquiet, firstReport_cons_nil]
    by_cases hvalidate : options.validate = true
    · rw [if_pos hvalidate, if_pos hvalidate]
      cases hproblems : r.validate built.root with
      | nil => exact ⟨rfl, Outcome.consistent_success _⟩
      | cons problem rest =>
        exact ⟨rfl, Outcome.consistent_failure (List.cons_ne_nil problem rest)⟩
    · rw [if_neg hvalidate, if_neg hvalidate]
      exact ⟨rfl, Outcome.consistent_success _⟩

/-- A reading reports what the first stage reports that finds anything, and nothing of the
others. -/
theorem parse_reports (options : Options) (r : Registry) (input : String) :
    (parse options r input).errors = firstReport (reports options r input) ∧
      (parse options r input).Consistent := by
  unfold parse reports
  by_cases hinput : input = ""
  · rw [if_pos hinput, if_pos hinput, firstReport_cons_of_ne_nil (List.cons_ne_nil _ _)]
    exact ⟨rfl, Outcome.consistent_failure (List.cons_ne_nil _ _)⟩
  · rw [if_neg hinput, if_neg hinput, firstReport_cons_nil]
    cases hbuild : build options.maxDepth (tokenize input) with
    | error e => exact ⟨rfl, Outcome.consistent_failure (List.cons_ne_nil _ _)⟩
    | ok built =>
      rw [eq_whole_of_build hbuild]
      exact judge_reports options r _

/-- Validating a text is reading it with validation and under the limit that is usual. -/
theorem validateText_eq (r : Registry) (input : String) :
    r.validateText input = (parse ⟨true, false, defaultMaxDepth⟩ r input).errors := by
  unfold Registry.validateText parse
  split_ifs
  · rfl
  · cases build defaultMaxDepth (tokenize input) with
    | error e => rfl
    | ok built =>
      simp only [judge, Bool.false_eq_true, false_and, if_false, if_true]
      cases r.validate built.root <;> rfl

/-- Options only filter. Whatever the options, a reading that gives a tree gives the same one, and
it gives it under options that ask for less as well: reading that is not strict, does not validate
or allows more depth. An outcome has a tree exactly if it has no errors, by all ways to ask for
that; its errors are those of one stage, the first that finds any. Validating a text finds what
reading it with validation reports. -/
theorem options_only_filter (r : Registry) (input : String) :
    (∀ options other tree tree', (parse options r input).tree = some tree →
      (parse other r input).tree = some tree' → tree = tree') ∧
    (∀ options tree, (parse options r input).tree = some tree →
      (∀ lax : Options, lax.Laxer options → (parse lax r input).tree = some tree) ∧
      (parse { options with strict := false } r input).tree = some tree ∧
      (parse { options with validate := false } r input).tree = some tree ∧
      ∀ maxDepth, options.maxDepth ≤ maxDepth →
        (parse { options with maxDepth } r input).tree = some tree) ∧
    (∀ options, (parse options r input).Consistent ∧
      (parse options r input).errors = firstReport (reports options r input)) ∧
    r.validateText input = (parse ⟨true, false, 1024⟩ r input).errors ∧
    (r.validateText input = [] ↔ (parse ⟨true, false, 1024⟩ r input).isOk = true) := by
  refine ⟨fun options other tree tree' h h' ↦ ?_, fun options tree h ↦ ?_, fun options ↦ ?_,
    validateText_eq r input, ?_⟩
  · rw [eq_root_whole_of_tree_parse h, eq_root_whole_of_tree_parse h']
  · have hlaxer (lax : Options) (hlax : lax.Laxer options) : (parse lax r input).tree = some tree :=
      tree_parse_of_laxer hlax h
    exact ⟨hlaxer, hlaxer _ ⟨fun h ↦ absurd h Bool.false_ne_true, id, Nat.le_refl _⟩,
      hlaxer _ ⟨id, fun h ↦ absurd h Bool.false_ne_true, Nat.le_refl _⟩,
      fun maxDepth hdepth ↦ hlaxer _ ⟨id, id, hdepth⟩⟩
  · exact ⟨(parse_reports options r input).2, (parse_reports options r input).1⟩
  · rw [validateText_eq]
    exact (parse_reports _ r input).2.isOk.symm

/-- An element left open around a closing tag of another name, both of unknown kinds: either check
refuses it, strictness before validation, and without the two it is read under any limit. -/
theorem options_only_filter_repaired :
    let input := "<a><b>x</a>"
    (reports ⟨true, true, 2⟩ .empty input).map List.length = [0, 0, 2, 2] ∧
    (parse ⟨true, true, 2⟩ .empty input).errors =
      [.atPosition "mismatched closing tag: expected </b>, found </a>" 7,
        .atPosition "unclosed element <a>" 0] ∧
    Registry.empty.validateText input = (parse ⟨true, false, 1024⟩ .empty input).errors ∧
    ∃ tree, (parse ⟨false, false, 2⟩ .empty input).tree = some tree ∧
      ∀ maxDepth, 2 ≤ maxDepth →
        (parse ⟨false, false, maxDepth⟩ .empty input).tree = some tree := by
  intro input
  obtain ⟨-, hlaxer, hstages, htext, -⟩ := options_only_filter .empty input
  have hread : (parse ⟨false, false, 2⟩ .empty input).tree.isSome = true := by decide +kernel
  obtain ⟨tree, htree⟩ := Option.isSome_iff_exists.mp hread
  refine ⟨by decide +kernel, ?_, htext, tree, htree, (hlaxer _ tree htree).2.2.2⟩
  rw [(hstages _).2]
  decide +kernel

end AgentMarkup.Parser
