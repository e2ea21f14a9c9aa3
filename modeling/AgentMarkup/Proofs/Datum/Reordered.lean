import AgentMarkup.Proofs.Datum.Encoded
import Mathlib.Data.List.Forall2
import Mathlib.Data.List.Perm.Basic

/-!
Objects whose members stand in another order. Two values are the same (`Json.Same`) if they
differ in the order of the members of objects at most, at any depth. What is read does not depend
on that order: a field is looked up by its name (`Json.Same.exists_lookup`, from which
`requiredField_of_same` and `defaultField_of_same`), and a table is a table of its entries in any
order (`asTable_of_same`).
-/

set_option autoImplicit false
set_option relaxedAutoImplicit false

namespace AgentMarkup

namespace Json

/-- The same value, whatever the order of the members of objects. The object is
put in the order of the other one by `reordered`. -/
inductive Same : Json → Json → Prop where
  | scalar (value : Scalar) : Same (.scalar value) (.scalar value)
  | arr {items others : List Json} (hitems : List.Forall₂ Same items others) :
    Same (.arr items) (.arr others)
  | obj {members reordered others : List (String × Json)}
    (hkeys : members.map Prod.fst = reordered.map Prod.fst)
    (hvalues : List.Forall₂ Same (members.map Prod.snd) (reordered.map Prod.snd))
    (hperm : others.Perm reordered) : Same (.obj members) (.obj others)

mutual

theorem Same.refl : ∀ value : Json, value.Same value
  | .scalar value => .scalar value
  | .arr items => .arr (Same.refl_items items)
  | .obj members => .obj rfl (Same.refl_values members) (.refl members)

theorem Same.refl_items : ∀ items : List Json, List.Forall₂ Same items items
  | [] => .nil
  | item :: rest => .cons (Same.refl item) (Same.refl_items rest)

theorem Same.refl_values : ∀ members : List (String × Json),
    List.Forall₂ Same (members.map Prod.snd) (members.map Prod.snd)
  | [] => .nil
  | (_, value) :: rest => .cons (Same.refl value) (Same.refl_values rest)

end

/-- The same key, and the same value under it. -/
def SameMember (member other : String × Json) : Prop :=
  member.1 = other.1 ∧ member.2.Same other.2

theorem Same.exists_members {members : List (String × Json)} {value : Json}
    (h : (Json.obj members).Same value) : ∃ reordered others, value = .obj others ∧
      List.Forall₂ SameMember members reordered ∧ others.Perm reordered := by
  cases h with
  | @obj _ reordered others hkeys hvalues hperm =>
    refine ⟨reordered, others, rfl, ?_, hperm⟩
    clear hperm
    induction members generalizing reordered with
    | nil =>
      obtain rfl := List.map_eq_nil_iff.mp hkeys.symm
      exact .nil
    | cons member rest ih =>
      obtain ⟨other, others, rfl, hkey, hrest⟩ := List.map_eq_cons_iff.mp hkeys.symm
      rw [List.map_cons, List.map_cons, List.forall₂_cons] at hvalues
      exact .cons ⟨hkey.symm, hvalues.1⟩ (ih hrest.symm hvalues.2)

theorem map_fst_of_forall₂ {members others : List (String × Json)}
    (h : List.Forall₂ SameMember members others) :
    members.map Prod.fst = others.map Prod.fst := by
  induction h with
  | nil => rfl
  | cons hmember _ ih => rw [List.map_cons, List.map_cons, hmember.1, ih]

theorem lookup_of_forall₂ {members others : List (String × Json)}
    (h : List.Forall₂ SameMember members others) (k : String) :
    Option.Rel Same (members.lookup k) (others.lookup k) := by
  induction h with
  | nil => exact .none
  | @cons member other rest others hmember _ ih =>
    obtain ⟨key, value⟩ := member
    obtain ⟨otherkey, othervalue⟩ := other
    obtain ⟨rfl, hvalue⟩ := hmember
    rw [Table.lookup_cons_eq_ite, Table.lookup_cons_eq_ite]
    split_ifs
    · exact .some hvalue
    · exact ih

/-- Under the name of a field stands its value if it is present, and nothing if it is not. -/
theorem Same.exists_lookup {members : List (String × Option Json)} {value : Json}
    (hnodup : (members.map Prod.fst).Nodup) (h : (fields members).Same value) :
    ∃ others, value = .obj others ∧
      ∀ k, Option.Rel Same (members.lookup k).join (others.lookup k) := by
  obtain ⟨reordered, others, rfl, hmembers, hperm⟩ := h.exists_members
  refine ⟨others, rfl, fun k ↦ ?_⟩
  have hreordered : (reordered.map Prod.fst).Nodup := by
    rw [← map_fst_of_forall₂ hmembers, Table.keys_filterMap_present]
    exact (List.filter_sublist.map Prod.fst).nodup hnodup
  have hothers : (others.map Prod.fst).Nodup := (hperm.map Prod.fst).nodup_iff.mpr hreordered
  rw [Table.lookup_eq_of_perm hothers hperm, ← Table.lookup_filterMap_present hnodup]
  exact lookup_of_forall₂ hmembers k

end Json

namespace Datum

variable {α : Type}

/-! ### Scalars -/

theorem asText_of_same {text : String} (value : Json) (h : (Json.str text).Same value) :
    asText (ofJson value) = .ok text := by
  cases h
  rfl

theorem asOptional_asText_of_same {text : String} (value : Json)
    (h : (Json.str text).Same value) : asOptional asText (ofJson value) = .ok (some text) := by
  cases h
  rfl

theorem asCount_of_same {count : Nat} (hcount : count < Decimal.twoPow 64) (value : Json)
    (h : (Json.nat count).Same value) : asCount (ofJson value) = .ok count := by
  cases h
  have hrange : (0 : Int) ≤ count ∧ (count : Int) < Decimal.twoPow 64 := by omega
  rw [ofJson, asCount, countOfScalar, if_pos hrange, Int.toNat_natCast]

/-! ### Fields, lists and tables -/

theorem requiredField_of_same {members : List (String × Json)} {name : String} {written : Json}
    {decode : Datum → Decoded α} {result : α}
    (h : Option.Rel Json.Same (some written) (members.lookup name))
    (hdecode : ∀ value, written.Same value → decode (ofJson value) = .ok result) :
    requiredField (ofJsonMembers members) name decode = .ok result := by
  rw [requiredField, lookup_ofJsonMembers]
  generalize members.lookup name = found at h
  cases h with
  | some hsame => exact hdecode _ hsame

theorem defaultField_of_same {members : List (String × Json)} {name : String}
    {written : Option Json} {absent : α} {decode : Datum → Decoded α} {result : α}
    (h : Option.Rel Json.Same written (members.lookup name))
    (habsent : written = none → absent = result)
    (hdecode : ∀ w ∈ written, ∀ value, w.Same value → decode (ofJson value) = .ok result) :
    defaultField (ofJsonMembers members) name absent decode = .ok result := by
  rw [defaultField, lookup_ofJsonMembers]
  generalize members.lookup name = found at h
  cases h with
  | none => exact congrArg Except.ok (habsent rfl)
  | some hsame => exact hdecode _ rfl _ hsame

theorem mapM_eq_ok_of_forall₂ {β γ : Type} {r : β → γ → Prop} {f : γ → Decoded β} {xs : List β}
    {ys : List γ} (h : List.Forall₂ r xs ys) (hf : ∀ x ∈ xs, ∀ y, r x y → f y = .ok x) :
    ys.mapM f = .ok xs := by
  induction h with
  | nil => rfl
  | @cons x y rest others hxy _ ih =>
    rw [List.mapM_cons, hf x List.mem_cons_self y hxy,
      ih fun other hother ↦ hf other (List.mem_cons_of_mem x hother)]
    rfl

theorem asTable_of_same {decode : Datum → Decoded α} {encode : α → Json} {t : Table α}
    {value : Json} (hdecode : ∀ entry ∈ t.entries, ∀ value, (encode entry.2).Same value →
      decode (ofJson value) = .ok entry.2)
    (h : (Json.obj (t.entries.map fun entry ↦ (entry.1, encode entry.2))).Same value) :
    asTable decode (ofJson value) = .ok t := by
  obtain ⟨reordered, others, rfl, hmembers, hperm⟩ := h.exists_members
  rw [List.forall₂_map_left_iff] at hmembers
  -- The entries can be put in the order of the members instead.
  obtain ⟨entries, hentries, hothers⟩ : Relation.Comp List.Perm
      (List.Forall₂ fun entry member ↦ Json.SameMember (entry.1, encode entry.2) member)
      t.entries others := by
    rw [← List.forall₂_comp_perm_eq_perm_comp_forall₂]
    exact ⟨reordered, hmembers, hperm.symm⟩
  rw [← Table.ofList_eq_of_perm hentries.symm]
  refine asTable_ofJson_of_mapM (mapM_eq_ok_of_forall₂ hothers fun entry hentry member hsame ↦ ?_)
  rw [hdecode entry (hentries.mem_iff.mpr hentry) member.2 hsame.2, ← hsame.1]
  rfl

end Datum

end AgentMarkup
