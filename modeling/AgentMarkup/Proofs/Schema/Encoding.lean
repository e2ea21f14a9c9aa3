import AgentMarkup.Proofs.Json.Reader
import AgentMarkup.Schema.Encoding

/-!
Schemas survive their encoding but for defaults that are null, as these are read as no default.
What is read of an encoded schema is the schema without them (`Schema.decode_toJson`), so the
schemas that are lost are exactly those that have one (`Schema.settled_eq_self_iff`). No schema
that is read of explicit data has one (`Schema.ensures_settled`).
-/

set_option autoImplicit false
set_option relaxedAutoImplicit false

namespace AgentMarkup

open Datum

def Json.isNull : Json → Bool
  | .null => true
  | _ => false

theorem Datum.asOptional_asJson_ofJson (value : Json) :
    asOptional asJson (ofJson value) = .ok ((some value).filter (!·.isNull)) := by
  have hvalue : asJson (ofJson value) = .ok value := by rw [asJson, toJson?_ofJson]
  rcases value with (_ | _ | _ | _) | _ | _ <;>
    first | rfl | exact congrArg (Except.map some) hvalue

theorem ValueType.decode_name (type : ValueType) :
    decode (ofJson (.str type.name)) = .ok type := by
  cases type <;> rfl

namespace AttributeSpec

/-- Without a default that is null. -/
def settled (spec : AttributeSpec) : AttributeSpec :=
  { spec with default := spec.default.filter (!·.isNull) }

theorem settled_eq_self_iff {spec : AttributeSpec} :
    spec.settled = spec ↔ spec.default ≠ some .null := by
  obtain ⟨type, required, default, description⟩ := spec
  rcases default with _ | ((_ | _ | _ | _) | _ | _) <;>
    simp [settled, Json.isNull, Json.null, Option.filter]

theorem decode_toJson (spec : AttributeSpec) : decode (ofJson spec.toJson) = .ok spec.settled := by
  obtain ⟨fields, hfields, hlookup⟩ := exists_fields ["type", "required", "default", "description"]
    (rfl : spec.toJson = .fields _) (by simp)
  have htype : requiredField fields "type" ValueType.decode = .ok spec.type := by
    rw [requiredField, hlookup]
    exact ValueType.decode_name spec.type
  have hrequired : defaultField fields "required" false asBool = .ok spec.required := by
    rw [defaultField, hlookup]
    rfl
  have hdefault : defaultField fields "default" none (asOptional asJson) =
      .ok spec.settled.default := by
    have hfound : fields.lookup "default" = spec.default.map ofJson := hlookup "default"
    rw [defaultField, hfound, settled]
    cases spec.default with
    | none => rfl
    | some value => exact asOptional_asJson_ofJson value
  have hdescription : defaultField fields "description" none (asOptional asText) =
      .ok spec.description :=
    defaultField_optional (hlookup "description") asOptional_asText_ofJson
  rw [decode, hfields]
  simp only [bind, Except.bind, htype, hrequired, hdefault, hdescription]
  rfl

theorem ensures_settled : Ensures decode fun spec ↦ spec.settled = spec := by
  intro d hd spec hread
  obtain ⟨fields, hfields, hread⟩ := bind_eq_ok_iff.mp hread
  obtain ⟨type, -, hread⟩ := bind_eq_ok_iff.mp hread
  obtain ⟨required, -, hread⟩ := bind_eq_ok_iff.mp hread
  obtain ⟨default, hdefault, hread⟩ := bind_eq_ok_iff.mp hread
  obtain ⟨description, -, hread⟩ := bind_eq_ok_iff.mp hread
  cases hread
  have hnone : (none : Option Json) ≠ some .null := nofun
  exact settled_eq_self_iff.mpr
    (ensures_asOptional_asJson.defaultField (hd.asFields hfields) hnone hdefault)

/-- An unquoted scalar may have the value null without spelling it. -/
example : decode (.record [("default", .plain ".inf" (some .null)),
    ("type", .scalar (.str "number"))] []) = .ok ⟨.number, false, some .null, none⟩ := rfl

end AttributeSpec

theorem EventSpec.decode_toJson (event : EventSpec) : decode (ofJson event.toJson) = .ok event := by
  obtain ⟨fields, hfields, hlookup⟩ := exists_fields ["name", "description", "payload"]
    (rfl : event.toJson = .fields _) (by simp)
  have hname : requiredField fields "name" asText = .ok event.name := by
    rw [requiredField, hlookup]
    rfl
  have hdescription : defaultField fields "description" none (asOptional asText) =
      .ok event.description :=
    defaultField_optional (hlookup "description") asOptional_asText_ofJson
  have hpayload : defaultField fields "payload" none (asOptional (asTable asText)) =
      .ok event.payload :=
    defaultField_optional (hlookup "payload") fun t ↦
      congrArg (Except.map some) (asTable_ofJson_texts t)
  rw [decode, hfields]
  simp only [bind, Except.bind, hname, hdescription, hpayload]
  rfl

namespace Schema

/-- Without the defaults that are null. -/
def settled (s : Schema) : Schema :=
  { s with attributes := s.attributes.map AttributeSpec.settled }

/-- No attribute has a default that is null. -/
def HasNoNull (s : Schema) : Prop :=
  ∀ entry ∈ s.attributes.entries, entry.2.default ≠ some .null

theorem settled_eq_self_iff {s : Schema} : s.settled = s ↔ s.HasNoNull := by
  have hattributes : s.settled = s ↔ s.attributes.map AttributeSpec.settled = s.attributes := by
    refine ⟨congrArg attributes, fun h ↦ ?_⟩
    rw [settled, h]
  rw [hattributes, Table.map_eq_self_iff]
  exact forall₂_congr fun entry _ ↦ AttributeSpec.settled_eq_self_iff

/-- A schema is read back from its encoding without the defaults that are null. -/
theorem decode_toJson (s : Schema) : decode (ofJson s.toJson) = .ok s.settled := by
  have hattributes : asTable AttributeSpec.decode (ofJson (.obj (s.attributes.entries.map
      fun entry ↦ (entry.1, entry.2.toJson)))) = .ok (s.attributes.map AttributeSpec.settled) :=
    asTable_ofJson_map fun entry _ ↦ entry.2.decode_toJson
  have hstates := asList_ofJson_strs s.states
  have hevents : asList EventSpec.decode (ofJson (.arr (s.events.map EventSpec.toJson))) =
      .ok s.events := asList_ofJson fun event _ ↦ event.decode_toJson
  rw [decode, toJson, asFields_ofJson]
  simp only [List.map_cons, List.map_nil, bind, Except.bind, defaultField]
  simp [List.lookup_cons, asText_ofJson, hattributes, hstates, hevents, pure, Except.pure, settled]

theorem ensures_settled : Ensures decode fun s ↦ s.settled = s := by
  intro d hd s hread
  obtain ⟨fields, hfields, hread⟩ := bind_eq_ok_iff.mp hread
  obtain ⟨kind, -, hread⟩ := bind_eq_ok_iff.mp hread
  obtain ⟨attributes, hattributes, hread⟩ := bind_eq_ok_iff.mp hread
  obtain ⟨states, -, hread⟩ := bind_eq_ok_iff.mp hread
  obtain ⟨events, -, hread⟩ := bind_eq_ok_iff.mp hread
  cases hread
  have hsettled : ∀ entry ∈ attributes.entries, entry.2.settled = entry.2 :=
    AttributeSpec.ensures_settled.asTable.defaultField (hd.asFields hfields)
      (fun _ hnone ↦ absurd hnone List.not_mem_nil) hattributes
  rw [settled, Table.map_eq_self_iff.mpr hsettled]

end Schema

end AgentMarkup
