import AgentMarkup.Proofs.Registry.Visible
import AgentMarkup.Validation

/-!
What a tree without findings guarantees. `Conforms` says what the primitives in force ask of
an element, without the checker: its kind is known or free, its attributes are declared and
hold literals that their declarations accept, and none that is required is missing. An element
has no violations exactly if it conforms (`ownViolations_eq_nil_iff`).

A tree is valid exactly if every node conforms that is not of kind `text` and has no node of
that kind around it (`validate_document_eq_nil_iff`). Nodes of kind `text` are passed over with
all that is in them, be they texts or elements of that name.
-/

set_option autoImplicit false
set_option relaxedAutoImplicit false

namespace AgentMarkup

/-! ### Places in a tree -/

/-- A node stands in a forest inside nodes of these kinds, outermost first. -/
inductive Node.StandsIn : List Node → List String → Node → Prop
  | here {nodes : List Node} {n : Node} (h : n ∈ nodes) : StandsIn nodes [] n
  | inside {nodes : List Node} {kinds : List String} {around n : Node} (haround : around ∈ nodes)
    (h : StandsIn around.children kinds n) : StandsIn nodes (around.kind :: kinds) n

namespace Node

variable {n first : Node} {rest nodes : List Node} {kinds : List String}

theorem not_standsIn_nil : ¬ StandsIn [] kinds n := by
  rintro (h | ⟨h, -⟩) <;> exact absurd h List.not_mem_nil

theorem StandsIn.mono {others : List Node} (h : StandsIn nodes kinds n)
    (hsub : nodes ⊆ others) : StandsIn others kinds n := by
  cases h with
  | here h => exact .here (hsub h)
  | inside haround h => exact .inside (hsub haround) h

theorem standsIn_cons_iff : StandsIn (first :: rest) kinds n ↔
    StandsIn [first] kinds n ∨ StandsIn rest kinds n := by
  constructor
  · rintro (h | ⟨haround, h⟩)
    · rcases List.mem_cons.mp h with rfl | hrest
      · exact Or.inl (.here List.mem_cons_self)
      · exact Or.inr (.here hrest)
    · rcases List.mem_cons.mp haround with rfl | hrest
      · exact Or.inl (.inside List.mem_cons_self h)
      · exact Or.inr (.inside hrest h)
  · rintro (h | h)
    · exact h.mono (by simp)
    · exact h.mono (List.subset_cons_self first rest)

theorem standsIn_singleton_iff : StandsIn [first] kinds n ↔
    kinds = [] ∧ n = first ∨
      ∃ inner, kinds = first.kind :: inner ∧ StandsIn first.children inner n := by
  constructor
  · rintro (h | ⟨haround, h⟩)
    · exact Or.inl ⟨rfl, List.mem_singleton.mp h⟩
    · obtain rfl := List.mem_singleton.mp haround
      exact Or.inr ⟨_, rfl, h⟩
  · rintro (⟨rfl, rfl⟩ | ⟨inner, rfl, h⟩)
    · exact .here List.mem_cons_self
    · exact .inside List.mem_cons_self h

end Node

/-! ### A single element -/

/-- What the primitives in force ask of an element. -/
structure Registry.Conforms (r : Registry) (n : Node) : Prop where
  /-- The kind has a visible primitive, or is free because of its hyphen. -/
  known : (∃ schema, r.primitive? n.kind = some schema) ∨ '-' ∈ n.kind.toList
  /-- An element of a visible primitive carries declared attributes only, with literals that
  their declarations accept. -/
  declared : ∀ schema, r.primitive? n.kind = some schema →
    ∀ name literal, n.attribute? name = some literal →
      ∃ spec, schema.attribute? name = some spec ∧ spec.accepts literal = true
  /-- An element of a visible primitive carries every required attribute. -/
  complete : ∀ schema, r.primitive? n.kind = some schema →
    ∀ name spec, schema.attribute? name = some spec → spec.required = true →
      ∃ literal, n.attribute? name = some literal

namespace Schema

variable {s : Schema} {kind : String} {attributes : Table String}

theorem attributeViolation_eq_none_iff {name literal : String} :
    violations.attributeViolation s kind (name, literal) = none ↔
      ∃ spec, s.attribute? name = some spec ∧ spec.accepts literal = true := by
  simp only [violations.attributeViolation]
  cases s.attribute? name with
  | none => simp
  | some spec => cases haccepts : spec.accepts literal <;> simp [haccepts]

theorem mem_requiredAttributes_iff {name : String} : name ∈ s.requiredAttributes ↔
    ∃ spec, s.attribute? name = some spec ∧ spec.required = true := by
  rw [requiredAttributes, List.mem_map]
  simp only [List.mem_filter, attribute?, Table.get?_eq_some_iff]
  constructor
  · rintro ⟨⟨key, spec⟩, ⟨hmem, hrequired⟩, rfl⟩
    exact ⟨spec, hmem, hrequired⟩
  · rintro ⟨spec, hmem, hrequired⟩
    exact ⟨(name, spec), ⟨hmem, hrequired⟩, rfl⟩

/-- The violations of an element are the attributes at fault and the required ones that it
lacks, so there are none if there is neither. -/
theorem violations_eq_nil_iff : s.violations kind attributes = [] ↔
    (∀ name literal, attributes.get? name = some literal →
      ∃ spec, s.attribute? name = some spec ∧ spec.accepts literal = true) ∧
    ∀ name spec, s.attribute? name = some spec → spec.required = true →
      ∃ literal, attributes.get? name = some literal := by
  rw [violations, List.append_eq_nil_iff, List.filterMap_eq_nil_iff, List.map_eq_nil_iff,
    List.filter_eq_nil_iff]
  refine and_congr ?_ ?_
  · simp only [Prod.forall, attributeViolation_eq_none_iff, Table.get?_eq_some_iff]
  · simp only [mem_requiredAttributes_iff, Table.contains, Bool.not_eq_true,
      Bool.not_eq_false', Option.isSome_iff_exists, forall_exists_index, and_imp]

end Schema

namespace Validation

variable {schemas : Table Schema}

theorem isCustomKind_iff {kind : String} : Node.isCustomKind kind = true ↔ '-' ∈ kind.toList := by
  rw [Node.isCustomKind, List.contains_iff_mem]

theorem ownViolations_eq_nil_iff {r : Registry} {n : Node} :
    ownViolations r.primitives n.kind n.attributes = [] ↔ r.Conforms n := by
  rw [ownViolations, Registry.get?_primitives]
  cases hschema : r.primitive? n.kind with
  | none =>
    constructor
    · intro h
      refine ⟨Or.inr (isCustomKind_iff.mp ?_), by simp [hschema], by simp [hschema]⟩
      by_contra hplain
      simp [hplain] at h
    · intro h
      have hfree : '-' ∈ n.kind.toList := h.known.resolve_left (by simp [hschema])
      exact if_pos (isCustomKind_iff.mpr hfree)
  | some schema =>
    simp only [Schema.violations_eq_nil_iff]
    constructor
    · rintro ⟨hdeclared, hcomplete⟩
      refine ⟨Or.inl ⟨schema, hschema⟩, ?_, ?_⟩ <;>
      · intro other hother
        obtain rfl := Option.some.inj (hschema.symm.trans hother)
        assumption
    · intro h
      exact ⟨h.declared schema hschema, h.complete schema hschema⟩

/-! ### A whole tree -/

/-- Whether a node that stands inside nodes of these kinds is checked. -/
def Checked (kinds : List String) (n : Node) : Prop :=
  n.kind ≠ Node.textKind ∧ Node.textKind ∉ kinds

mutual

theorem findings_eq_nil_iff (place : NodePath) : ∀ first : Node,
    findings schemas place first = [] ↔ ∀ kinds n, Node.StandsIn [first] kinds n →
      Checked kinds n → ownViolations schemas n.kind n.attributes = []
  | ⟨kind, attributes, children, text, position⟩ => by
    have hbelow := childFindings_eq_nil_iff (place.child kind) 0 children
    simp only [findings, Node.standsIn_singleton_iff]
    split
    · rename_i htext
      subst htext
      refine iff_of_true rfl ?_
      rintro kinds n (⟨-, rfl⟩ | ⟨inner, rfl, -⟩) hchecked
      · exact absurd rfl hchecked.1
      · exact absurd List.mem_cons_self hchecked.2
    · rename_i hkind
      rw [List.append_eq_nil_iff, List.map_eq_nil_iff, hbelow]
      constructor
      · rintro ⟨hown, hrest⟩ kinds n (⟨-, rfl⟩ | ⟨inner, rfl, hn⟩) hchecked
        · exact hown
        · exact hrest inner n hn ⟨hchecked.1, fun hmem ↦ hchecked.2 (List.mem_cons_of_mem _ hmem)⟩
      · intro h
        refine ⟨h [] _ (Or.inl ⟨rfl, rfl⟩) ⟨hkind, List.not_mem_nil⟩, fun inner n hn hchecked ↦ ?_⟩
        refine h _ n (Or.inr ⟨inner, rfl, hn⟩) ⟨hchecked.1, ?_⟩
        rw [List.mem_cons, not_or]
        exact ⟨Ne.symm hkind, hchecked.2⟩

theorem childFindings_eq_nil_iff (place : Nat → NodePath) (index : Nat) : ∀ nodes : List Node,
    childFindings schemas place index nodes = [] ↔ ∀ kinds n, Node.StandsIn nodes kinds n →
      Checked kinds n → ownViolations schemas n.kind n.attributes = []
  | [] => by
    refine iff_of_true rfl fun kinds n hn ↦ ?_
    exact absurd hn Node.not_standsIn_nil
  | first :: rest => by
    rw [childFindings, List.append_eq_nil_iff, findings_eq_nil_iff (place index) first,
      childFindings_eq_nil_iff place (index + 1) rest]
    constructor
    · rintro ⟨hfirst, hrest⟩ kinds n hn
      rcases Node.standsIn_cons_iff.mp hn with hn | hn
      · exact hfirst kinds n hn
      · exact hrest kinds n hn
    · intro h
      exact ⟨fun kinds n hn ↦ h kinds n (Node.standsIn_cons_iff.mpr (Or.inl hn)),
        fun kinds n hn ↦ h kinds n (Node.standsIn_cons_iff.mpr (Or.inr hn))⟩

end

end Validation

/-- A document has no problems exactly if every node conforms that is not of kind `text` and
does not stand inside a node of that kind. -/
theorem Registry.validate_document_eq_nil_iff {r : Registry} {children : List Node} :
    r.validate (.document children) = [] ↔
      ∀ kinds n, Node.StandsIn children kinds n → Validation.Checked kinds n → r.Conforms n := by
  have hroot : (Node.document children).isDocument = true := by
    simp [Node.isDocument, Node.document, Node.element]
  rw [validate, List.map_eq_nil_iff, Validation.check, if_pos hroot, List.nil_append]
  simp only [← Validation.ownViolations_eq_nil_iff]
  exact Validation.childFindings_eq_nil_iff _ 0 children

end AgentMarkup
