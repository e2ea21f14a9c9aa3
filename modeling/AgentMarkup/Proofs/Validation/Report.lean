import AgentMarkup.Proofs.Document.Kinds
import AgentMarkup.Proofs.Validation.Place
import AgentMarkup.Proofs.Validation.Reading

/-!
The report on a tree. `Registry.Violates` says what is wrong with a single element and
`Registry.Finds` what there is to be found in a tree, without the checker. The report holds
exactly this (`mem_check_iff`), in document order and within a node in the order of names
(`pairwise_check`), so each finding once. In a tree of plain kinds, as are all that were read
(`plainKinds_of_build`), path and message of a diagnostic say which finding it is
(`Registry.Finds.eq_of_diagnostic_eq`).
-/

set_option autoImplicit false
set_option relaxedAutoImplicit false

namespace AgentMarkup

/-! ### What is to be found -/

/-- What is wrong with an element, by the primitives in force. -/
inductive Registry.Violates (r : Registry) (n : Node) : Violation → Prop
  | unknownPrimitive (hkind : r.primitive? n.kind = none) (hplain : '-' ∉ n.kind.toList) :
    Violates r n (.unknownPrimitive n.kind)
  | unknownAttribute {schema : Schema} {name literal : String}
    (hkind : r.primitive? n.kind = some schema) (hname : n.attribute? name = some literal)
    (hspec : schema.attribute? name = none) : Violates r n (.unknownAttribute n.kind name)
  | badLiteral {schema : Schema} {name literal : String} {spec : AttributeSpec}
    (hkind : r.primitive? n.kind = some schema) (hname : n.attribute? name = some literal)
    (hspec : schema.attribute? name = some spec) (hrejects : spec.accepts literal = false) :
    Violates r n (.badLiteral n.kind name spec.type)
  | missingAttribute {schema : Schema} {name : String} {spec : AttributeSpec}
    (hkind : r.primitive? n.kind = some schema) (hname : n.attribute? name = none)
    (hspec : schema.attribute? name = some spec) (hrequired : spec.required = true) :
    Violates r n (.missingAttribute n.kind name)

/-- What is to be found in a tree: that its root is no document, and the violations of the nodes
that a path leads to, but for nodes of kind `text` and those inside them. -/
inductive Registry.Finds (r : Registry) (root : Node) : Finding → Prop
  | root (h : root.kind ≠ Node.documentKind) : Finds r root ⟨none, .notDocument⟩
  | node {p : NodePath} {n : Node} {v : Violation} (hnode : p.node? root = some n)
    (hchecked : Validation.Checked p.kinds n) (h : r.Violates n v) : Finds r root ⟨some p, v⟩

namespace Violation

def isMissing : Violation → Bool
  | .missingAttribute _ _ => true
  | .notDocument | .unknownPrimitive _ | .unknownAttribute _ _ | .badLiteral _ _ _ => false

/-- The attribute that a violation is about; otherwise the kind. -/
def subject : Violation → String
  | .notDocument => ""
  | .unknownPrimitive kind => kind
  | .unknownAttribute _ name | .badLiteral _ name _ | .missingAttribute _ name => name

/-- Attributes at fault come before attributes that are missing, and both go by name. -/
def Precedes (v w : Violation) : Prop :=
  if v.isMissing = w.isMissing then v.subject < w.subject else w.isMissing = true

theorem precedes_of_subject_lt {v w : Violation} (hsame : v.isMissing = w.isMissing)
    (h : v.subject < w.subject) : v.Precedes w := by
  unfold Precedes
  rwa [if_pos hsame]

theorem precedes_of_isMissing {v w : Violation} (hv : v.isMissing = false)
    (hw : w.isMissing = true) : v.Precedes w := by
  unfold Precedes
  rwa [if_neg (by simp [hv, hw])]

theorem not_precedes_self (v : Violation) : ¬v.Precedes v := by
  unfold Precedes
  rw [if_pos rfl]
  exact String.lt_irrefl _

end Violation

/-- The root comes first, then the nodes in document order, and a node has its violations in
their order. -/
def Finding.Precedes (f g : Finding) : Prop :=
  match f.place, g.place with
  | none, some _ => True
  | some p, some q => p.indices < q.indices ∨ p = q ∧ f.violation.Precedes g.violation
  | _, none => False

theorem Finding.not_precedes_self (f : Finding) : ¬f.Precedes f := by
  obtain ⟨place, v⟩ := f
  cases place with
  | none => exact not_false
  | some p =>
    rintro (hplace | ⟨-, hviolation⟩)
    · exact List.lt_irrefl _ hplace
    · exact v.not_precedes_self hviolation

/-! ### The violations of a node -/

namespace Schema

variable {s : Schema} {kind : String} {attributes : Table String} {v : Violation}

theorem attributeViolation_eq_some_iff {name literal : String} :
    violations.attributeViolation s kind (name, literal) = some v ↔
      (s.attribute? name = none ∧ v = .unknownAttribute kind name) ∨
        ∃ spec, s.attribute? name = some spec ∧ spec.accepts literal = false ∧
          v = .badLiteral kind name spec.type := by
  simp only [violations.attributeViolation]
  cases s.attribute? name with
  | none => simp only [Option.some.injEq, true_and, reduceCtorEq, false_and, exists_false,
      or_false, eq_comm]
  | some spec =>
    cases haccepts : spec.accepts literal
    · simp [eq_comm (a := v)]
    · simp [haccepts]

theorem mem_violations_iff : v ∈ s.violations kind attributes ↔
    (∃ name literal, attributes.get? name = some literal ∧
      violations.attributeViolation s kind (name, literal) = some v) ∨
    ∃ name spec, s.attribute? name = some spec ∧ spec.required = true ∧
      attributes.get? name = none ∧ v = .missingAttribute kind name := by
  rw [violations, List.mem_append, List.mem_filterMap, List.mem_map]
  refine or_congr ?_ ?_
  · simp only [Prod.exists, Table.get?_eq_some_iff]
  · simp only [List.mem_filter, mem_requiredAttributes_iff, Table.contains, Bool.not_eq_true',
      Option.isSome_eq_false_iff, Option.isNone_iff_eq_none]
    constructor
    · rintro ⟨name, ⟨⟨spec, hspec, hrequired⟩, hname⟩, rfl⟩
      exact ⟨name, spec, hspec, hrequired, hname, rfl⟩
    · rintro ⟨name, spec, hspec, hrequired, hname, rfl⟩
      exact ⟨name, ⟨⟨spec, hspec, hrequired⟩, hname⟩, rfl⟩

theorem isMissing_of_attributeViolation {entry : String × String}
    (h : violations.attributeViolation s kind entry = some v) :
    v.isMissing = false ∧ v.subject = entry.1 := by
  obtain ⟨name, literal⟩ := entry
  rcases attributeViolation_eq_some_iff.mp h with ⟨-, rfl⟩ | ⟨spec, -, -, rfl⟩ <;> exact ⟨rfl, rfl⟩

theorem pairwise_requiredAttributes (s : Schema) : s.requiredAttributes.Pairwise (· < ·) := by
  rw [requiredAttributes, List.pairwise_map]
  exact (List.pairwise_map.mp s.attributes.ordered).filter _

/-- Violations come in their order, as attributes and declarations stand in tables. -/
theorem pairwise_violations : (s.violations kind attributes).Pairwise Violation.Precedes := by
  rw [violations, List.pairwise_append]
  refine ⟨?_, ?_, fun v hv w hw ↦ ?_⟩
  · refine (List.pairwise_map.mp attributes.ordered).filterMap _ fun a b hab v hv w hw ↦ ?_
    obtain ⟨hkept, hname⟩ := isMissing_of_attributeViolation hv
    obtain ⟨hkept', hname'⟩ := isMissing_of_attributeViolation hw
    refine Violation.precedes_of_subject_lt (hkept.trans hkept'.symm) ?_
    rwa [hname, hname']
  · rw [List.pairwise_map]
    refine (s.pairwise_requiredAttributes.filter _).imp ?_
    intro a b hlt
    exact Violation.precedes_of_subject_lt rfl hlt
  · obtain ⟨entry, -, hentry⟩ := List.mem_filterMap.mp hv
    obtain ⟨name, -, rfl⟩ := List.mem_map.mp hw
    exact Violation.precedes_of_isMissing (isMissing_of_attributeViolation hentry).1 rfl

end Schema

namespace Validation

variable {r : Registry} {root n : Node}

theorem mem_ownViolations_iff {v : Violation} :
    v ∈ ownViolations r.primitives n.kind n.attributes ↔ r.Violates n v := by
  rw [ownViolations, Registry.get?_primitives]
  cases hkind : r.primitive? n.kind with
  | none =>
    constructor
    · intro h
      by_cases hplain : Node.isCustomKind n.kind = true
      · simp [hplain] at h
      · simp only [hplain, Bool.false_eq_true, if_false, List.mem_singleton] at h
        exact h ▸ .unknownPrimitive hkind (mt isCustomKind_iff.mpr hplain)
    · intro h
      cases h with
      | unknownPrimitive _ hplain => simp [mt isCustomKind_iff.mp hplain]
      | unknownAttribute hschema | badLiteral hschema | missingAttribute hschema =>
        exact absurd (hkind.symm.trans hschema) (by simp)
  | some schema =>
    simp only [Schema.mem_violations_iff, Schema.attributeViolation_eq_some_iff]
    constructor
    · rintro (⟨name, literal, hname, ⟨hspec, rfl⟩ | ⟨spec, hspec, hrejects, rfl⟩⟩ |
        ⟨name, spec, hspec, hrequired, hname, rfl⟩)
      · exact .unknownAttribute hkind hname hspec
      · exact .badLiteral hkind hname hspec hrejects
      · exact .missingAttribute hkind hname hspec hrequired
    · intro h
      cases h with
      | unknownPrimitive hnone => exact absurd (hkind.symm.trans hnone) (by simp)
      | unknownAttribute hschema hname hspec =>
        obtain rfl := Option.some.inj (hkind.symm.trans hschema)
        exact Or.inl ⟨_, _, hname, Or.inl ⟨hspec, rfl⟩⟩
      | badLiteral hschema hname hspec hrejects =>
        obtain rfl := Option.some.inj (hkind.symm.trans hschema)
        exact Or.inl ⟨_, _, hname, Or.inr ⟨_, hspec, hrejects, rfl⟩⟩
      | missingAttribute hschema hname hspec hrequired =>
        obtain rfl := Option.some.inj (hkind.symm.trans hschema)
        exact Or.inr ⟨_, _, hspec, hrequired, hname, rfl⟩

theorem pairwise_ownViolations (schemas : Table Schema) (kind : String)
    (attributes : Table String) :
    (ownViolations schemas kind attributes).Pairwise Violation.Precedes := by
  unfold ownViolations
  split
  · exact Schema.pairwise_violations
  · split_ifs
    · exact List.Pairwise.nil
    · exact List.pairwise_singleton _ _

/-! ### The whole report -/

theorem mem_findingsAt_iff {p : NodePath} {f : Finding} :
    f ∈ findingsAt r.primitives (p, n) ↔ ∃ v, r.Violates n v ∧ f = ⟨some p, v⟩ := by
  rw [findingsAt, List.mem_map]
  simp only [mem_ownViolations_iff, eq_comm]

/-- The report holds exactly what there is to be found. -/
theorem mem_check_iff {f : Finding} : f ∈ check r.primitives root ↔ r.Finds root f := by
  rw [check, List.mem_append, childFindings_eq_flatMap, List.mem_flatMap]
  constructor
  · rintro (hroot | ⟨⟨p, n⟩, hn, hf⟩)
    · by_cases hdocument : root.isDocument = true
      · simp [hdocument] at hroot
      · simp only [hdocument, Bool.false_eq_true, if_false, List.mem_singleton] at hroot
        exact hroot ▸ .root (by simpa [Node.isDocument] using hdocument)
    · obtain ⟨hnode, hchecked⟩ := mem_checked_iff.mp hn
      obtain ⟨v, hv, rfl⟩ := mem_findingsAt_iff.mp hf
      exact .node hnode hchecked hv
  · intro h
    cases h with
    | root h => exact Or.inl (by simp [Node.isDocument, h])
    | node hnode hchecked hv =>
      exact Or.inr ⟨_, mem_checked_iff.mpr ⟨hnode, hchecked⟩, mem_findingsAt_iff.mpr ⟨_, hv, rfl⟩⟩

/-- The report has the root first, then the nodes in document order, and the violations of a
node in their order. -/
theorem pairwise_check (r : Registry) (root : Node) :
    (check r.primitives root).Pairwise Finding.Precedes := by
  have hplace (i : Nat) : (⟨i, []⟩ : NodePath).indices = [] ++ [i] := rfl
  rw [check, childFindings_eq_flatMap, List.pairwise_append, List.pairwise_flatMap]
  refine ⟨?_, ⟨?_, ?_⟩, ?_⟩
  · split_ifs
    · exact List.Pairwise.nil
    · exact List.pairwise_singleton _ _
  · rintro ⟨p, n⟩ -
    rw [findingsAt, List.pairwise_map]
    exact (pairwise_ownViolations _ _ _).imp fun {v w} hvw ↦ Or.inr ⟨rfl, hvw⟩
  · refine (pairwise_checkedAmong hplace 0 root.children).imp fun {x y} hxy f hf g hg ↦ ?_
    obtain ⟨v, -, rfl⟩ := List.mem_map.mp hf
    obtain ⟨w, -, rfl⟩ := List.mem_map.mp hg
    exact Or.inl hxy
  · intro f hf g hg
    obtain ⟨x, -, hx⟩ := List.mem_flatMap.mp hg
    obtain ⟨v, -, rfl⟩ := List.mem_map.mp hx
    split_ifs at hf
    · exact absurd hf List.not_mem_nil
    · rw [List.mem_singleton.mp hf]
      exact trivial

end Validation

end AgentMarkup
