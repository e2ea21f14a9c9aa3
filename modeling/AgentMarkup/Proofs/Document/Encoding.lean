import AgentMarkup.Parser
import AgentMarkup.Proofs.Datum.Reordered

/-!
Trees survive their encoding. A node leaves out what it lacks and nothing else (`keys_toJson`),
and each field that is left out is read as what the node has in its place. From this and from the
same of its children a node is read back as it was (`Addressed.decode_of_same`), by induction on
the tree, whatever its shape and whatever the order of the members of objects. Positions are the
only parts that must fit, as they are read as counts of sixty-four bits, and in a tree that was
read they do (`addressed_of_decode`). So the encoding determines the tree (`survives_json`).
-/

set_option autoImplicit false
set_option relaxedAutoImplicit false

namespace AgentMarkup

/-- The keys of an object, in their order. -/
def Json.keys : Json → List String
  | .obj members => members.map Prod.fst
  | _ => []

theorem unlessEmpty_eq_none_iff {α : Type} {items : List α} {value : Json} :
    unlessEmpty items value = none ↔ items = [] := by
  cases items <;> simp [unlessEmpty]

theorem eq_of_unlessEmpty {α : Type} {items : List α} {value written : Json}
    (h : unlessEmpty items value = some written) : written = value := by
  cases items with
  | nil => simp [unlessEmpty] at h
  | cons item rest => simpa [unlessEmpty, eq_comm] using h

namespace Node

open Datum

/-! ### Equations without the recursion over the children -/

theorem allToJson_eq_map (nodes : List Node) : allToJson nodes = nodes.map toJson := by
  induction nodes with
  | nil => rfl
  | cons n rest ih => rw [allToJson, ih, List.map_cons]

theorem toJson_eq (n : Node) : n.toJson = .fields [("kind", some (.str n.kind)),
    ("attributes", unlessEmpty n.attributes.entries n.attributes.toJson),
    ("children", unlessEmpty n.children (.arr (n.children.map toJson))),
    ("text", n.text.map .str), ("position", some (.nat n.position))] := by
  obtain ⟨kind, attributes, children, text, position⟩ := n
  rw [toJson, allToJson_eq_map]

theorem decode_eq (d : Datum) : decode d = do
    let fields ← d.asFields fieldNames
    let items ← childData fields
    let kind ← requiredField fields "kind" asText
    let attributes ← defaultField fields "attributes" .empty (asTable asText)
    let children ← items.mapM decode
    let text ← defaultField fields "text" none (asOptional asText)
    let position ← requiredField fields "position" asCount
    return ⟨kind, attributes, children, text, position⟩ := by
  rw [decode]
  split
  · rename_i fault hfields
    conv_rhs => rw [hfields]
    rfl
  · rename_i fields hfields
    conv_rhs => rw [hfields]
    simp only [bind, Except.bind]
    split
    · rename_i fault hitems
      conv_rhs => rw [hitems]
    · rename_i items hitems
      have hchildren : (items.attach.mapM fun child ↦ decode child.1) = items.mapM decode := by
        rw [List.mapM_subtype (g := decode) (fun _ _ ↦ rfl), List.unattach_attach]
      conv_rhs => rw [hitems]
      rw [hchildren]

/-! ### What is left out -/

/-- Whether a node has nothing to write in a field. -/
def lacks (n : Node) (name : String) : Bool :=
  match name with
  | "attributes" => n.attributes.isEmpty
  | "children" => n.children.isEmpty
  | "text" => n.text.isNone
  | _ => false

theorem keys_toJson (n : Node) : n.toJson.keys = fieldNames.filter fun name ↦ !n.lacks name := by
  rw [toJson_eq, Json.fields, Json.keys, Table.keys_filterMap_present]
  simp only [unlessEmpty, fieldNames, lacks, Table.isEmpty, List.filter_cons]
  cases n.attributes.entries.isEmpty <;> cases n.children.isEmpty <;> cases n.text <;> rfl

/-! ### Reading a tree back -/

/-- Every position in the tree is a count of sixty-four bits. -/
inductive Addressed : Node → Prop where
  | mk {n : Node} (hposition : n.position < Decimal.twoPow 64)
    (hchildren : ∀ child ∈ n.children, child.Addressed) : n.Addressed

theorem exists_items_of_same {children : List Node} {members : List (String × Json)}
    (h : Option.Rel Json.Same (unlessEmpty children (.arr (children.map toJson)))
      (members.lookup "children"))
    (hread : ∀ child ∈ children, ∀ value, child.toJson.Same value →
      decode (ofJson value) = .ok child) :
    ∃ items, childData (ofJsonMembers members) = .ok items ∧
      items.mapM decode = .ok children := by
  rw [childData, defaultField, lookup_ofJsonMembers]
  generalize members.lookup "children" = found at h
  generalize hwritten : unlessEmpty children (.arr (children.map toJson)) = written at h
  cases h with
  | none =>
    rw [unlessEmpty_eq_none_iff.mp hwritten]
    exact ⟨[], rfl, rfl⟩
  | some hsame =>
    rw [eq_of_unlessEmpty hwritten] at hsame
    cases hsame with
    | @arr _ others hothers =>
      refine ⟨others.map ofJson, by rw [Option.map_some, ofJson, ofJsonItems_eq_map]; rfl, ?_⟩
      rw [List.forall₂_map_left_iff] at hothers
      rw [List.mapM_map]
      exact mapM_eq_ok_of_forall₂ hothers hread

theorem Addressed.decode_of_same {n : Node} (h : n.Addressed) {value : Json}
    (hsame : n.toJson.Same value) : decode (ofJson value) = .ok n := by
  induction h generalizing value with
  | @mk n hposition _ ih =>
    rw [toJson_eq] at hsame
    obtain ⟨others, rfl, hlookup⟩ := hsame.exists_lookup (by simp)
    have hkind : requiredField (ofJsonMembers others) "kind" asText = .ok n.kind :=
      requiredField_of_same (hlookup "kind") asText_of_same
    have hattributes : defaultField (ofJsonMembers others) "attributes" .empty
        (asTable asText) = .ok n.attributes := by
      refine defaultField_of_same (hlookup "attributes") (fun hnone ↦ ?_)
        fun written hwritten value hvalue ↦ ?_
      · exact (Table.eq_empty_of_entries (unlessEmpty_eq_none_iff.mp hnone)).symm
      · obtain rfl := eq_of_unlessEmpty hwritten
        exact asTable_of_same (fun entry _ ↦ asText_of_same) hvalue
    have htext : defaultField (ofJsonMembers others) "text" none (asOptional asText) =
        .ok n.text := by
      refine defaultField_of_same (hlookup "text") (fun hnone ↦ ?_)
        fun written hwritten value hvalue ↦ ?_
      · exact (Option.map_eq_none_iff.mp hnone).symm
      · obtain ⟨text, htext, rfl⟩ := Option.map_eq_some_iff.mp hwritten
        rw [asOptional_asText_of_same value hvalue, htext]
    have hplace : requiredField (ofJsonMembers others) "position" asCount = .ok n.position :=
      requiredField_of_same (hlookup "position") (asCount_of_same hposition)
    obtain ⟨items, hitems, hchildren⟩ :=
      exists_items_of_same (hlookup "children") fun child hchild _ ↦ ih child hchild
    rw [decode_eq, asFields_ofJson, ← ofJsonMembers_eq_map]
    simp only [bind, Except.bind, hitems, hkind, hattributes, hchildren, htext, hplace]
    cases n
    rfl

theorem lt_of_asCount_eq_ok {d : Datum} {count : Nat} (h : asCount d = .ok count) :
    count < Decimal.twoPow 64 := by
  have hscalar {value : Scalar} (hread : countOfScalar value = .ok count) :
      count < Decimal.twoPow 64 := by
    rw [countOfScalar.eq_def] at hread
    split at hread
    · split_ifs at hread with hrange
      cases hread
      omega
    · cases hread
  rw [asCount.eq_def] at h
  split at h
  · exact hscalar h
  · exact hscalar h
  · cases h

/-- Every tree that is read has positions that fit. -/
theorem addressed_of_decode {d : Datum} {n : Node} (h : decode d = .ok n) : n.Addressed := by
  rw [decode_eq] at h
  obtain ⟨fields, hfields, h⟩ := bind_eq_ok_iff.mp h
  obtain ⟨items, hitems, h⟩ := bind_eq_ok_iff.mp h
  obtain ⟨kind, -, h⟩ := bind_eq_ok_iff.mp h
  obtain ⟨attributes, -, h⟩ := bind_eq_ok_iff.mp h
  obtain ⟨children, hchildren, h⟩ := bind_eq_ok_iff.mp h
  obtain ⟨text, -, h⟩ := bind_eq_ok_iff.mp h
  obtain ⟨position, hposition, h⟩ := bind_eq_ok_iff.mp h
  cases h
  refine ⟨?_, fun child hchild ↦ ?_⟩
  · rw [requiredField] at hposition
    split at hposition
    · exact lt_of_asCount_eq_ok hposition
    · cases hposition
  · obtain ⟨item, hitem, hread⟩ := exists_of_mem_mapM hchildren hchild
    have hsmaller := sizeOf_lt_of_mem_childData hfields hitems hitem
    exact addressed_of_decode hread
termination_by sizeOf d

/-- What comes of encoding a tree and reading it again. -/
structure SurvivesJson (n : Node) : Prop where
  /-- Attributes, children and text are left out where there are none. -/
  keys : n.toJson.keys = fieldNames.filter fun name ↦ !n.lacks name
  restored : decode (ofJson n.toJson) = .ok n
  /-- The members of objects may be written in any order. -/
  reordered : ∀ value, n.toJson.Same value → decode (ofJson value) = .ok n
  determined : ∀ other : Node, other.Addressed → n.toJson.Same other.toJson → other = n
  /-- A tree with the same encoding answers alike. -/
  alike : ∀ other : Node, other.Addressed → n.toJson.Same other.toJson →
    (∀ r : Registry, r.validate other = r.validate n) ∧
      (∀ kind, other.findAll kind = n.findAll kind) ∧ other.textContent = n.textContent

/-- Every tree survives its encoding, also one of a shape that no text has. -/
theorem survives_json {n : Node} (h : n.Addressed) : n.SurvivesJson := by
  have hdetermined (other : Node) (hother : other.Addressed)
      (hsame : n.toJson.Same other.toJson) : other = n := by
    have hread := h.decode_of_same hsame
    rw [hother.decode_of_same (.refl _)] at hread
    exact Except.ok.inj hread
  refine ⟨n.keys_toJson, h.decode_of_same (.refl _), fun _ ↦ h.decode_of_same, hdetermined,
    fun other hother hsame ↦ ?_⟩
  rw [hdetermined other hother hsame]
  exact ⟨fun _ ↦ rfl, fun _ ↦ rfl, rfl⟩

/-- A text with attributes and children, the first of them an element with a text of its own at
the last position that there is. -/
theorem survives_json_odd :
    let inner : Node := ⟨"tool", .empty, [], some "go", Decimal.twoPow 64 - 1⟩
    let outer : Node := ⟨"text", .ofList [("b", "1"), ("a", "")], [inner, document []], some "", 7⟩
    outer.Addressed ∧ outer.SurvivesJson ∧ outer.toJson.keys = fieldNames ∧
      inner.toJson.keys = ["kind", "text", "position"] := by
  intro inner outer
  have hinner : inner.Addressed := ⟨by decide, by simp [inner]⟩
  have hdocument : (document []).Addressed := ⟨by decide, by simp [document, element]⟩
  have houter : outer.Addressed := ⟨by decide, by simp [outer, hinner, hdocument]⟩
  exact ⟨houter, survives_json houter, rfl, rfl⟩

end Node

end AgentMarkup
