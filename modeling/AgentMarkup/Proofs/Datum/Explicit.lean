import AgentMarkup.Proofs.Datum.Encoded

/-!
Data in which nothing is unquoted and nothing is left out (`Explicit`), such as those of a JSON
value (`explicit_ofJson`). In them null is the only thing that stands for absence, and so no
optional value that is read of them is null (`ensures_asOptional_asJson`). A property that a
decoder ensures of explicit data is ensured of the fields and of the entries of tables that are
decoded with it (`Ensures.defaultField`, `Ensures.asTable`).
-/

set_option autoImplicit false
set_option relaxedAutoImplicit false

namespace AgentMarkup

namespace Datum

/-- Data with nothing unquoted and nothing left out. -/
inductive Explicit : Datum → Prop where
  | scalar (value : Scalar) : Explicit (.scalar value)
  | list {positional : Bool} {items : List Datum} (hitems : ∀ item ∈ items, item.Explicit) :
    Explicit (.list positional items)
  | record {members replaced : List (String × Datum)}
    (hmembers : ∀ member ∈ members, member.2.Explicit)
    (hreplaced : ∀ member ∈ replaced, member.2.Explicit) : Explicit (.record members replaced)
  | void : Explicit .void

mutual

theorem explicit_ofJson : ∀ value : Json, (ofJson value).Explicit
  | .scalar value => .scalar value
  | .arr items => .list (explicit_ofJsonItems items)
  | .obj members => .record (explicit_ofJsonMembers members) (by simp)

theorem explicit_ofJsonItems : ∀ items : List Json, ∀ item ∈ ofJsonItems items, item.Explicit
  | [] => by simp [ofJsonItems]
  | item :: rest => by
    simp only [ofJsonItems, List.forall_mem_cons]
    exact ⟨explicit_ofJson item, explicit_ofJsonItems rest⟩

theorem explicit_ofJsonMembers : ∀ members : List (String × Json),
    ∀ member ∈ ofJsonMembers members, member.2.Explicit
  | [] => by simp [ofJsonMembers]
  | (key, value) :: rest => by
    simp only [ofJsonMembers, List.forall_mem_cons]
    exact ⟨explicit_ofJson value, explicit_ofJsonMembers rest⟩

end

/-! ### Decoding -/

section Decoding

variable {α : Type} {d : Datum} {fields : List (String × Datum)} {name : String}

theorem Explicit.asFields (h : d.Explicit) {names : List String}
    (hfields : d.asFields names = .ok fields) : ∀ field ∈ fields, field.2.Explicit := by
  cases h with
  | scalar value => cases hfields
  | void => cases hfields
  | @record members replaced hmembers hreplaced =>
    rw [Datum.asFields] at hfields
    split at hfields
    · cases hfields
    · cases hfields
      exact hmembers
  | @list positional items hitems =>
    cases positional with
    | false => cases hfields
    | true =>
      rw [Datum.asFields] at hfields
      split_ifs at hfields with hlength
      cases hfields
      exact fun field hfield ↦ hitems field.2 (List.of_mem_zip hfield).2

theorem Explicit.asMembers (h : d.Explicit) {members : List (String × Datum)}
    (hmembers : d.asMembers = .ok members) : ∀ member ∈ members, member.2.Explicit := by
  cases h with
  | scalar value => cases hmembers
  | void => cases hmembers
  | list hitems => cases hmembers
  | @record members replaced hstanding hreplaced =>
    cases hmembers
    rintro member hmember
    exact (List.mem_append.mp hmember).elim (hreplaced member) (hstanding member)

/-- Whatever the decoder makes of explicit data has the property. -/
def Ensures (decode : Datum → Decoded α) (p : α → Prop) : Prop :=
  ∀ d : Datum, d.Explicit → ∀ value, decode d = .ok value → p value

variable {decode : Datum → Decoded α} {p : α → Prop}

theorem Ensures.defaultField (h : Ensures decode p) (hfields : ∀ field ∈ fields, field.2.Explicit)
    {absent value : α} (habsent : p absent)
    (hread : defaultField fields name absent decode = .ok value) : p value := by
  rw [AgentMarkup.defaultField] at hread
  split at hread
  · rename_i d hd
    exact h d (hfields _ (Table.mem_of_lookup_eq_some hd)) value hread
  · cases hread
    exact habsent

theorem Ensures.asTable (h : Ensures decode p) :
    Ensures (asTable decode) fun t ↦ ∀ entry ∈ t.entries, p entry.2 := by
  intro d hd t hread entry hentry
  obtain ⟨members, hmembers, hread⟩ := bind_eq_ok_iff.mp hread
  obtain ⟨entries, hentries, hread⟩ := bind_eq_ok_iff.mp hread
  cases hread
  obtain ⟨member, hmember, hdecoded⟩ := exists_of_mem_mapM hentries (Table.mem_of_mem_ofList hentry)
  obtain ⟨value, hvalue, rfl⟩ := map_eq_ok_iff.mp hdecoded
  exact h member.2 (hd.asMembers hmembers member hmember) value hvalue

theorem Explicit.eq_null (h : d.Explicit) (hvalue : d.toJson? = some .null) :
    d = .scalar .null := by
  cases h with
  | scalar value =>
    cases hvalue
    rfl
  | void => cases hvalue
  | @list positional items hitems =>
    rw [toJson?] at hvalue
    obtain ⟨items, -, hitems⟩ := Option.map_eq_some_iff.mp hvalue
    cases hitems
  | @record members replaced hmembers hreplaced =>
    rw [toJson?] at hvalue
    obtain ⟨_, -, hvalue⟩ := Option.bind_eq_some_iff.mp hvalue
    obtain ⟨members, -, hmembers⟩ := Option.bind_eq_some_iff.mp hvalue
    cases hmembers

theorem of_asOptional_eq_some {value : α} (h : asOptional decode d = .ok (some value)) :
    decode d = .ok value ∧ d ≠ .scalar .null := by
  rw [asOptional.eq_def] at h
  split at h
  · cases h
  · cases h
  · rename_i hnull _
    obtain ⟨found, hfound, hsome⟩ := map_eq_ok_iff.mp h
    cases hsome
    exact ⟨hfound, hnull⟩

/-- Null stands for absence, and no other explicit data have the value null. -/
theorem ensures_asOptional_asJson : Ensures (asOptional asJson) (· ≠ some .null) := by
  rintro d hd read hread rfl
  obtain ⟨hvalue, hnull⟩ := of_asOptional_eq_some hread
  rw [asJson] at hvalue
  split at hvalue
  · rename_i value hjson
    cases hvalue
    exact hnull (hd.eq_null hjson)
  · cases hvalue

end Decoding

end Datum

end AgentMarkup
