import AgentMarkup.Proofs.Token.Letters
import AgentMarkup.Proofs.Validation.Report

/-!
Diagnostics tell findings apart. In a tree of plain kinds the path of a diagnostic shows its
node and the message shows which of the violations of this node is meant
(`Registry.Finds.eq_of_diagnostic`), so no diagnostic is given twice. Trees that were read are
such trees (`plainKinds_of_build`). `validate_reports` says all that a report is.
-/

set_option autoImplicit false
set_option relaxedAutoImplicit false

namespace AgentMarkup

/-! ### Trees of plain kinds -/

/-- Whether no node below a root has a mark of a path in its kind. -/
def Node.PlainKinds (root : Node) : Prop :=
  ∀ (p : NodePath) (n : Node), p.node? root = some n → PlainKind n.kind

namespace Node

variable {root n m : Node}

/-- The node that a step leaves is walked to by the steps before. -/
theorem exists_descend_of_mem {steps : List (String × Nat)} (h : n.descend steps = some m)
    {step : String × Nat} (hstep : step ∈ steps) :
    ∃ before x, n.descend before = some x ∧ x.kind = step.1 := by
  induction steps generalizing n with
  | nil => exact absurd hstep List.not_mem_nil
  | cons first rest ih =>
    obtain ⟨kind, index⟩ := first
    simp only [descend, Option.ite_none_right_eq_some] at h
    obtain ⟨rfl, h⟩ := h
    rcases List.mem_cons.mp hstep with rfl | hrest
    · exact ⟨[], n, rfl, rfl⟩
    · obtain ⟨child, hchild, h⟩ := Option.bind_eq_some_iff.mp h
      obtain ⟨before, x, hx, hkind⟩ := ih h hrest
      refine ⟨(n.kind, index) :: before, x, ?_, hkind⟩
      rw [descend, if_pos rfl, hchild]
      exact hx

theorem PlainKinds.of_step (hplain : root.PlainKinds) {p : NodePath} (h : p.node? root = some n)
    {step : String × Nat} (hstep : step ∈ p.steps) : PlainKind step.1 := by
  obtain ⟨child, hchild, h⟩ := Option.bind_eq_some_iff.mp h
  obtain ⟨before, x, hx, hkind⟩ := exists_descend_of_mem h hstep
  rw [← hkind]
  refine hplain ⟨p.first, before⟩ x ?_
  rw [NodePath.node?, hchild]
  exact hx

theorem exists_mem_familyAll {child : Node} {nodes : List Node} (hchild : child ∈ nodes)
    (h : ∀ parent number, ∃ above, (above, m) ∈ child.family parent number)
    (parent : Option Nat) (number : Nat) : ∃ above, (above, m) ∈ familyAll parent number nodes := by
  obtain ⟨before, after, rfl⟩ := List.append_of_mem hchild
  obtain ⟨above, habove⟩ := h parent (number + (familyAll parent number before).length)
  rw [familyAll_append, familyAll]
  exact ⟨above, List.mem_append_right _ (List.mem_append_left _ habove)⟩

/-- A node that is walked to is listed among the descendants. -/
theorem exists_mem_family_of_descend {steps : List (String × Nat)}
    (h : n.descend steps = some m) (parent : Option Nat) (number : Nat) :
    ∃ above, (above, m) ∈ n.family parent number := by
  induction steps generalizing n parent number with
  | nil =>
    obtain rfl := Option.some.inj h
    exact ⟨parent, family_eq parent number n ▸ List.mem_cons_self⟩
  | cons first rest ih =>
    obtain ⟨kind, index⟩ := first
    simp only [descend, Option.ite_none_right_eq_some] at h
    obtain ⟨child, hchild, h⟩ := Option.bind_eq_some_iff.mp h.2
    obtain ⟨above, habove⟩ := exists_mem_familyAll (List.mem_of_getElem? hchild) (ih h)
      (some number) (number + 1)
    exact ⟨above, family_eq parent number n ▸ List.mem_cons_of_mem _ habove⟩

end Node

theorem plainKind_of_named {kind : String} (h : Token.Named kind) : PlainKind kind := by
  intro c hc hmark
  have hname := h c hc
  simp only [NodePath.marks, List.mem_cons, List.not_mem_nil, or_false] at hmark
  rcases hmark with rfl | rfl | rfl | rfl <;> exact absurd hname (by decide)

/-- Documents that were read have plain kinds. -/
theorem plainKinds_of_build {maxDepth : Nat} {input : String} {built : Built}
    (h : Document.build maxDepth (tokenize input) = .ok built) : built.root.PlainKinds := by
  intro p n hn
  obtain ⟨child, hchild, hdescend⟩ := Option.bind_eq_some_iff.mp hn
  obtain ⟨above, habove⟩ := Node.exists_mem_familyAll (List.mem_of_getElem? hchild)
    (Node.exists_mem_family_of_descend hdescend) none 0
  exact plainKind_of_named (Document.named_kind_of_build h habove)

/-! ### Reading a diagnostic -/

namespace Violation

/-- Messages of different sorts begin differently. -/
theorem head?_message (v : Violation) : v.message.toList.head? = some (match v with
    | .notDocument | .missingAttribute _ _ => 'R'
    | .unknownPrimitive _ | .unknownAttribute _ _ => 'U'
    | .badLiteral _ _ _ => 'A') := by
  cases v with
  | notDocument => rfl
  | unknownPrimitive kind =>
    change ("Unknown primitive: " ++ kind).toList.head? = _
    rw [String.toList_append]
    rfl
  | unknownAttribute kind name =>
    change ("Unknown attribute: " ++ name).toList.head? = _
    rw [String.toList_append]
    rfl
  | badLiteral kind name type =>
    have h (expected : String) : ("Attribute " ++ name ++ expected).toList.head? = some 'A' := by
      rw [String.toList_append, String.toList_append]
      rfl
    cases type <;> exact h _
  | missingAttribute kind name =>
    change ("Required attribute missing: " ++ name).toList.head? = _
    rw [String.toList_append]
    rfl

end Violation

namespace Registry

variable {r : Registry} {root n : Node} {v w : Violation}

/-- What a violation adds to a path begins with the kind of its node. -/
theorem Violates.closes_suffix (h : r.Violates n v) (hplain : PlainKind n.kind) :
    NodePath.Closes v.suffix.toList := by
  cases h with
  | unknownPrimitive => exact Or.inl rfl
  | @unknownAttribute _ name | @badLiteral _ name =>
    refine Or.inr ⟨n.kind, ".@".toList ++ name.toList, hplain, ?_, by simp⟩
    change ("." ++ n.kind ++ ".@" ++ name).toList = _
    simp only [String.toList_append, List.append_assoc]
    rfl
  | missingAttribute =>
    refine Or.inr ⟨n.kind, [], hplain, ?_, by simp⟩
    change ("." ++ n.kind).toList = _
    rw [String.toList_append, List.append_nil]
    rfl

/-- Of the violations of one node, message and path say which one is meant. -/
theorem Violates.eq_of_message (hv : r.Violates n v) (hw : r.Violates n w)
    (hsuffix : v.suffix = w.suffix) (hmessage : v.message = w.message) : v = w := by
  have hheads := v.head?_message.symm.trans ((congrArg (·.toList.head?) hmessage).trans
    w.head?_message)
  cases hv with
  | unknownPrimitive hnone =>
    cases hw with
    | unknownPrimitive => rfl
    | unknownAttribute hkind | badLiteral hkind | missingAttribute hkind =>
      exact absurd (hnone.symm.trans hkind) (by simp)
  | @unknownAttribute _ name _ hkind =>
    cases hw with
    | unknownPrimitive hnone => exact absurd (hnone.symm.trans hkind) (by simp)
    | @unknownAttribute _ other =>
      have hname : name = other := (String.append_right_inj "Unknown attribute: ").mp hmessage
      rw [hname]
    | badLiteral | missingAttribute => simp at hheads
  | @badLiteral _ name _ _ hkind _ hspec =>
    cases hw with
    | unknownPrimitive hnone => exact absurd (hnone.symm.trans hkind) (by simp)
    | @badLiteral _ other _ _ hkind' _ hspec' =>
      -- the name is at the end of the path; the type is that of the one declaration
      obtain rfl : name = other :=
        (String.append_right_inj ("." ++ n.kind ++ ".@")).mp hsuffix
      obtain rfl := Option.some.inj (hkind.symm.trans hkind')
      rw [Option.some.inj (hspec.symm.trans hspec')]
    | unknownAttribute | missingAttribute => simp at hheads
  | @missingAttribute _ name _ hkind =>
    cases hw with
    | unknownPrimitive hnone => exact absurd (hnone.symm.trans hkind) (by simp)
    | @missingAttribute _ other =>
      have hname : name = other :=
        (String.append_right_inj "Required attribute missing: ").mp hmessage
      rw [hname]
    | unknownAttribute | badLiteral => simp at hheads

/-- In a tree of plain kinds, path and message of a diagnostic say which finding it is. -/
theorem Finds.eq_of_diagnostic (hplain : root.PlainKinds) {f g : Finding} (hf : r.Finds root f)
    (hg : r.Finds root g) (hpath : f.diagnostic.path = g.diagnostic.path)
    (hmessage : f.diagnostic.message = g.diagnostic.message) : f = g := by
  have hpaths := Option.some.inj hpath
  cases hf with
  | root =>
    cases hg with
    | root => rfl
    | @node p _ v => exact absurd hpaths.symm (p.display_append_ne_empty v.suffix)
  | @node p n v hn _ hv =>
    cases hg with
    | root => exact absurd hpaths (p.display_append_ne_empty v.suffix)
    | @node q m w hm _ hw =>
      obtain ⟨rfl, hsuffix⟩ := NodePath.display_append_inj (fun _ ↦ hplain.of_step hn)
        (fun _ ↦ hplain.of_step hm) (hv.closes_suffix (hplain p n hn))
        (hw.closes_suffix (hplain q m hm)) hpaths
      obtain rfl := Option.some.inj (hn.symm.trans hm)
      rw [hv.eq_of_message hw hsuffix hmessage]

/-- What a report is. -/
structure Reports (r : Registry) (root : Node) (found : List Finding) : Prop where
  /-- The diagnostics are those of the findings, one each. -/
  validate_eq : r.validate root = found.map Finding.diagnostic
  mem_iff : ∀ f, f ∈ found ↔ r.Finds root f
  ordered : found.Pairwise Finding.Precedes
  /-- Path and message tell the findings apart, if the kinds do not look like parts of paths. -/
  distinct : root.PlainKinds → ∀ f ∈ found, ∀ g ∈ found,
    f.diagnostic.path = g.diagnostic.path → f.diagnostic.message = g.diagnostic.message → f = g
  nodup : root.PlainKinds → (r.validate root).Nodup
  valid_iff : r.validate root = [] ↔ root.isDocument = true ∧
    ∀ (p : NodePath) (n : Node), p.node? root = some n → Validation.Checked p.kinds n →
      r.Conforms n

theorem conforms_iff_forall_not_violates : r.Conforms n ↔ ∀ v, ¬r.Violates n v := by
  rw [← Validation.ownViolations_eq_nil_iff, List.eq_nil_iff_forall_not_mem]
  simp only [Validation.mem_ownViolations_iff]

/-- The report on a tree is its violations, each once, at its place and in order, for whatever
primitives are in force. Documents that were read have plain kinds. -/
theorem validate_reports :
    (∀ (r : Registry) (root : Node), ∃ found, r.Reports root found) ∧
      ∀ {maxDepth : Nat} {input : String} {built : Built},
        Document.build maxDepth (tokenize input) = .ok built → built.root.PlainKinds := by
  refine ⟨fun r root ↦ ⟨Validation.check r.primitives root, ?_⟩, plainKinds_of_build⟩
  have hmem (f : Finding) : f ∈ Validation.check r.primitives root ↔ r.Finds root f :=
    Validation.mem_check_iff
  have hordered := Validation.pairwise_check r root
  have hdistinct (hplain : root.PlainKinds) : ∀ f ∈ Validation.check r.primitives root,
      ∀ g ∈ Validation.check r.primitives root, f.diagnostic.path = g.diagnostic.path →
        f.diagnostic.message = g.diagnostic.message → f = g :=
    fun f hf g hg ↦ Finds.eq_of_diagnostic hplain ((hmem f).mp hf) ((hmem g).mp hg)
  refine ⟨rfl, hmem, hordered, hdistinct, fun hplain ↦ ?_, ?_⟩
  · have honce : (Validation.check r.primitives root).Nodup := by
      refine hordered.imp ?_
      rintro f g h rfl
      exact f.not_precedes_self h
    refine List.Nodup.map_on (fun f hf g hg hsame ↦ ?_) honce
    exact hdistinct hplain f hf g hg (congrArg _ hsame) (congrArg _ hsame)
  · rw [validate, List.map_eq_nil_iff, List.eq_nil_iff_forall_not_mem]
    simp only [hmem]
    constructor
    · intro h
      refine ⟨?_, fun p n hn hchecked ↦ conforms_iff_forall_not_violates.mpr fun v hv ↦
        h _ (.node hn hchecked hv)⟩
      by_contra hroot
      exact h _ (.root (by simpa [Node.isDocument] using hroot))
    · rintro ⟨hroot, hconforms⟩ f hf
      cases hf with
      | root h => exact h (by simpa [Node.isDocument] using hroot)
      | node hn hchecked hv =>
        exact conforms_iff_forall_not_violates.mp (hconforms _ _ hn hchecked) _ hv

/-- An element of no known kind, with a text and a faulty element inside it. -/
theorem validate_reports_widget :
    let input := "<widget>note<tool color=\"red\"/></widget>"
    ∃ built found, Document.build 1024 (tokenize input) = .ok built ∧
      empty.validate built.root = [.atPath "Unknown primitive: widget" "children[0]",
        .atPath "Unknown attribute: color" "children[0].widget[1].tool.@color",
        .atPath "Required attribute missing: name" "children[0].widget[1].tool"] ∧
      empty.Reports built.root found ∧ built.root.PlainKinds ∧
      (empty.validate built.root).Nodup := by
  intro input
  have hread : (Document.build 1024 (tokenize input)).toOption.map (empty.validate ·.root) =
      some [.atPath "Unknown primitive: widget" "children[0]",
        .atPath "Unknown attribute: color" "children[0].widget[1].tool.@color",
        .atPath "Required attribute missing: name" "children[0].widget[1].tool"] := by
    decide +kernel
  cases hbuild : Document.build 1024 (tokenize input) with
  | error e => simp [hbuild, Except.toOption] at hread
  | ok built =>
    rw [hbuild] at hread
    have hplain := validate_reports.2 hbuild
    obtain ⟨found, hreports⟩ := validate_reports.1 empty built.root
    exact ⟨built, found, rfl, Option.some.inj hread, hreports, hplain, hreports.nodup hplain⟩

end Registry

end AgentMarkup
