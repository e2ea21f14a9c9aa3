import AgentMarkup.Document.Encoding
import AgentMarkup.Proofs.Table

/-!
Reading data that were encoded. Where a decoder gives back each value from its encoding, so do
the decoders of lists of such values (`asList_ofJson`) and of tables of them
(`asTable_ofJson`, and `asTable_ofJson_map` where the decoder gives back an image of the value),
whatever the keys are: an encoded table has its entries in key order, and a table is the table of
its own entries. A field that may be left out is found under its name or not at all
(`exists_fields`).
-/

set_option autoImplicit false
set_option relaxedAutoImplicit false

namespace AgentMarkup

/-! ### Results that are reached -/

theorem bind_eq_ok_iff {ε α β : Type} {x : Except ε α} {f : α → Except ε β} {result : β} :
    x >>= f = .ok result ↔ ∃ value, x = .ok value ∧ f value = .ok result := by
  cases x <;> simp [bind, Except.bind]

theorem map_eq_ok_iff {ε α β : Type} {x : Except ε α} {f : α → β} {result : β} :
    x.map f = .ok result ↔ ∃ value, x = .ok value ∧ f value = result := by
  cases x <;> simp [Except.map]

namespace Datum

variable {α : Type}

/-! ### What encoded data hold -/

theorem ofJsonItems_eq_map (items : List Json) : ofJsonItems items = items.map ofJson := by
  induction items with
  | nil => rfl
  | cons item rest ih => rw [ofJsonItems, ih, List.map_cons]

theorem ofJsonMembers_eq_map (members : List (String × Json)) :
    ofJsonMembers members = members.map fun member ↦ (member.1, ofJson member.2) := by
  induction members with
  | nil => rfl
  | cons member rest ih => rw [ofJsonMembers, ih, List.map_cons]

/-- A record of values has no members that others replaced. -/
theorem asFields_ofJson (names : List String) (members : List (String × Json)) :
    (ofJson (.obj members)).asFields names =
      .ok (members.map fun member ↦ (member.1, ofJson member.2)) := by
  have hnone : (names.find? fun name ↦
      (([] : List (String × Datum)).lookup name).isSome) = none := by
    simp
  rw [ofJson, asFields, hnone, ofJsonMembers_eq_map]

theorem lookup_ofJsonMembers (members : List (String × Json)) (k : String) :
    (ofJsonMembers members).lookup k = (members.lookup k).map ofJson := by
  induction members with
  | nil => rfl
  | cons member rest ih =>
    rw [ofJsonMembers, Table.lookup_cons_eq_ite, Table.lookup_cons_eq_ite, ih]
    split_ifs <;> rfl

/-- Of fields that may be left out, those that are present are found under their names. -/
theorem exists_fields (names : List String) {value : Json} {members : List (String × Option Json)}
    (hvalue : value = .fields members) (hnodup : (members.map Prod.fst).Nodup) :
    ∃ fields, (ofJson value).asFields names = .ok fields ∧
      ∀ k, fields.lookup k = (members.lookup k).join.map ofJson := by
  subst hvalue
  refine ⟨_, asFields_ofJson names _, fun k ↦ ?_⟩
  rw [← ofJsonMembers_eq_map, lookup_ofJsonMembers, Table.lookup_filterMap_present hnodup]

theorem defaultField_optional {fields : List (String × Datum)} {name : String}
    {present : Option α} {encode : α → Json} {decode : Datum → Decoded α}
    (hlookup : fields.lookup name = (present.map encode).map ofJson)
    (h : ∀ x, asOptional decode (ofJson (encode x)) = .ok (some x)) :
    defaultField fields name none (asOptional decode) = .ok present := by
  rw [defaultField, hlookup]
  cases present with
  | none => rfl
  | some x => exact h x

/-! ### Lists and tables -/

theorem mapM_eq_ok_map {β γ : Type} {f : β → Decoded γ} {g : β → γ} {xs : List β}
    (h : ∀ x ∈ xs, f x = .ok (g x)) : xs.mapM f = .ok (xs.map g) := by
  induction xs with
  | nil => rfl
  | cons x rest ih =>
    rw [List.mapM_cons, h x List.mem_cons_self,
      ih fun other hother ↦ h other (List.mem_cons_of_mem x hother)]
    rfl

theorem exists_of_mem_mapM {β : Type} {f : β → Decoded α} {xs : List β} {ys : List α}
    (h : xs.mapM f = .ok ys) {y : α} (hy : y ∈ ys) : ∃ x ∈ xs, f x = .ok y := by
  induction xs generalizing ys with
  | nil =>
    cases h
    exact absurd hy List.not_mem_nil
  | cons x rest ih =>
    rw [List.mapM_cons] at h
    obtain ⟨first, hfirst, h⟩ := bind_eq_ok_iff.mp h
    obtain ⟨others, hothers, h⟩ := bind_eq_ok_iff.mp h
    cases h
    rcases List.mem_cons.mp hy with rfl | hother
    · exact ⟨x, List.mem_cons_self, hfirst⟩
    · obtain ⟨x', hx', hread⟩ := ih hothers hother
      exact ⟨x', List.mem_cons_of_mem x hx', hread⟩

theorem asList_ofJson {decode : Datum → Decoded α} {encode : α → Json} {xs : List α}
    (h : ∀ x ∈ xs, decode (ofJson (encode x)) = .ok x) :
    asList decode (ofJson (.arr (xs.map encode))) = .ok xs := by
  have hitems : (ofJson (.arr (xs.map encode))).asItems =
      .ok (xs.map fun x ↦ ofJson (encode x)) := by
    rw [ofJson, asItems, ofJsonItems_eq_map, List.map_map]
    rfl
  have hdecoded : (xs.map fun x ↦ ofJson (encode x)).mapM decode = .ok xs := by
    rw [List.mapM_map]
    exact (mapM_eq_ok_map h).trans (by rw [List.map_id'])
  rw [asList, hitems]
  exact hdecoded

theorem asTable_ofJson_of_mapM {decode : Datum → Decoded α} {members : List (String × Json)}
    {entries : List (String × α)}
    (h : (members.mapM fun member ↦ (decode (ofJson member.2)).map (member.1, ·)) = .ok entries) :
    asTable decode (ofJson (.obj members)) = .ok (Table.ofList entries) := by
  have hmembers : (ofJson (.obj members)).asMembers =
      .ok (members.map fun member ↦ (member.1, ofJson member.2)) := by
    rw [ofJson, asMembers, ofJsonMembers_eq_map]
    rfl
  have hentries : (members.map fun member ↦ (member.1, ofJson member.2)).mapM
      (fun member ↦ (decode member.2).map (member.1, ·)) = .ok entries := by
    rw [List.mapM_map]
    exact h
  rw [asTable, hmembers]
  simp only [bind, Except.bind, hentries]
  rfl

theorem asTable_ofJson_map {β : Type} {decode : Datum → Decoded β} {encode : α → Json}
    {f : α → β} {t : Table α}
    (h : ∀ entry ∈ t.entries, decode (ofJson (encode entry.2)) = .ok (f entry.2)) :
    asTable decode (ofJson (.obj (t.entries.map fun entry ↦ (entry.1, encode entry.2)))) =
      .ok (t.map f) := by
  have hwhole : Table.ofList (t.map f).entries = t.map f := Table.ofList_eq_of_perm (.refl _)
  rw [← hwhole]
  refine asTable_ofJson_of_mapM ?_
  rw [List.mapM_map, Table.entries_map]
  exact mapM_eq_ok_map fun entry hentry ↦ congrArg (Except.map (entry.1, ·)) (h entry hentry)

theorem asTable_ofJson {decode : Datum → Decoded α} {encode : α → Json} {t : Table α}
    (h : ∀ entry ∈ t.entries, decode (ofJson (encode entry.2)) = .ok entry.2) :
    asTable decode (ofJson (.obj (t.entries.map fun entry ↦ (entry.1, encode entry.2)))) =
      .ok t :=
  (asTable_ofJson_map (f := id) h).trans
    (congrArg Except.ok (Table.map_eq_self_iff.mpr fun _ _ ↦ rfl))

theorem asText_ofJson (text : String) : asText (ofJson (.str text)) = .ok text := rfl

theorem asOptional_asText_ofJson (text : String) :
    asOptional asText (ofJson (.str text)) = .ok (some text) := rfl

theorem asList_ofJson_strs (texts : List String) :
    asList asText (ofJson (.strs texts)) = .ok texts :=
  asList_ofJson fun text _ ↦ asText_ofJson text

theorem asTable_ofJson_texts (t : Table String) : asTable asText (ofJson t.toJson) = .ok t :=
  asTable_ofJson fun entry _ ↦ asText_ofJson entry.2

end Datum

end AgentMarkup
