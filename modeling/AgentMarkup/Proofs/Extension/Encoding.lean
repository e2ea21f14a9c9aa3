import AgentMarkup.Proofs.Registry.Operation
import AgentMarkup.Proofs.Schema.Encoding

/-!
Manifests survive their encoding but for defaults that are null. What is read of an encoded
extension is the extension without them and without hooks (`Extension.decode_toJson`). Registering
it is refused for the same reason or succeeds as well, as faults hang on names and kinds only
(`Extension.fault?_settled`); and since a registered extension shows its own primitives and hides
no others (`Registry.primitive?_of_register`), the schemas in force then differ in such defaults
at most. An extension that is read of JSON has none, so nothing is lost of it
(`Extension.settles_in_json`).
-/

set_option autoImplicit false
set_option relaxedAutoImplicit false

namespace AgentMarkup

open Datum

namespace Extension

/-- Without the defaults that are null. -/
def settled (e : Extension) : Extension :=
  { e with primitives := e.primitives.map Schema.settled }

/-- No attribute of a primitive has a default that is null. -/
def HasNoNull (e : Extension) : Prop :=
  ∀ entry ∈ e.primitives.entries, entry.2.HasNoNull

theorem settled_eq_self_iff {e : Extension} : e.settled = e ↔ e.HasNoNull := by
  have hprimitives : e.settled = e ↔ e.primitives.map Schema.settled = e.primitives := by
    refine ⟨congrArg primitives, fun h ↦ ?_⟩
    rw [settled, h]
  rw [hprimitives, Table.map_eq_self_iff]
  exact forall₂_congr fun entry _ ↦ Schema.settled_eq_self_iff

theorem decode_toJson (e : Extension) :
    decode (ofJson e.toJson) = .ok { e.settled with middleware := [] } := by
  have hprimitives : asTable Schema.decode (ofJson (.obj (e.primitives.entries.map
      fun entry ↦ (entry.1, entry.2.toJson)))) = .ok (e.primitives.map Schema.settled) :=
    asTable_ofJson_map fun entry _ ↦ entry.2.decode_toJson
  have htheme := asTable_ofJson_texts e.theme
  rw [decode, toJson, asFields_ofJson]
  simp only [List.map_cons, List.map_nil, bind, Except.bind, requiredField, defaultField]
  simp [List.lookup_cons, asText_ofJson, hprimitives, htheme, pure, Except.pure, settled]

theorem ensures_settled : Ensures decode fun e ↦ e.settled = e ∧ e.middleware = [] := by
  intro d hd e hread
  obtain ⟨fields, hfields, hread⟩ := bind_eq_ok_iff.mp hread
  obtain ⟨name, -, hread⟩ := bind_eq_ok_iff.mp hread
  obtain ⟨version, -, hread⟩ := bind_eq_ok_iff.mp hread
  obtain ⟨primitives, hprimitives, hread⟩ := bind_eq_ok_iff.mp hread
  obtain ⟨theme, -, hread⟩ := bind_eq_ok_iff.mp hread
  cases hread
  have hsettled : ∀ entry ∈ primitives.entries, entry.2.settled = entry.2 :=
    Schema.ensures_settled.asTable.defaultField (hd.asFields hfields)
      (fun _ hnone ↦ absurd hnone List.not_mem_nil) hprimitives
  refine ⟨?_, rfl⟩
  rw [settled, Table.map_eq_self_iff.mpr hsettled]

theorem fault?_settled (e : Extension) : e.settled.fault? = e.fault? := by
  rw [fault?, fault?, settled, Table.entries_map, List.findSome?_map]
  rfl

end Extension

/-! ### Registering an extension that was read back -/

namespace Registry

variable {r next : Registry} {e : Extension}

theorem register_eq_error_iff {fault : RegistrationFault} : r.register e = .error fault ↔
    (∃ f, e.fault? = some f ∧ .invalid f = fault) ∨
      (e.fault? = none ∧ r.extensions.contains e.name = true ∧ .exists e.name = fault) := by
  rw [register]
  cases e.fault? with
  | some f => simp
  | none => split_ifs with hlive <;> simp [hlive]

theorem register_settled_eq_error_iff {fault : RegistrationFault} :
    r.register e.settled = .error fault ↔ r.register e = .error fault := by
  rw [register_eq_error_iff, register_eq_error_iff, Extension.fault?_settled]
  rfl

theorem primitive?_pushLayer (r : Registry) (source : SchemaSource) (kind : String)
    (schema : Schema) (k : String) : (r.pushLayer source kind schema).primitive? k =
      if k = kind then some { schema with kind } else r.primitive? k := by
  rw [primitive?, primitive?, layers, layers, get?_overlays_pushLayer]
  split_ifs with hk
  · simp
  · rfl

theorem primitive?_overlay (r : Registry) (name : String) {entries : List (String × Schema)}
    (hnodup : (entries.map Prod.fst).Nodup) (kind : String) :
    (r.overlay name entries).primitive? kind =
      ((entries.lookup kind).map fun schema ↦ { schema with kind }).or (r.primitive? kind) := by
  induction entries generalizing r with
  | nil => rfl
  | cons entry rest ih =>
    obtain ⟨key, schema⟩ := entry
    rw [List.map_cons, List.nodup_cons] at hnodup
    have hrest : (r.overlay name ((key, schema) :: rest)).primitive? kind =
        ((rest.lookup kind).map fun schema ↦ { schema with kind }).or
          ((r.pushLayer (.extension name) key schema).primitive? kind) := ih _ hnodup.2
    rw [hrest, primitive?_pushLayer, Table.lookup_cons_eq_ite]
    split_ifs with hkind
    · subst hkind
      rw [Table.lookup_eq_none_of_notMem hnodup.1]
      rfl
    · rfl

/-- A registered extension shows its own primitives and hides no others. -/
theorem primitive?_of_register (h : r.register e = .ok next) (kind : String) :
    next.primitive? kind =
      ((e.primitives.get? kind).map fun schema ↦ { schema with kind }).or (r.primitive? kind) := by
  obtain ⟨-, -, rfl⟩ := register_eq_ok_iff.mp h
  exact primitive?_overlay r e.name e.primitives.nodup_keys kind

theorem primitive?_of_register_settled {next' : Registry} (h : r.register e = .ok next)
    (h' : r.register e.settled = .ok next') (kind : String) :
    next'.primitive? kind = if e.primitives.contains kind then
      (next.primitive? kind).map Schema.settled else next.primitive? kind := by
  have hfound : e.settled.primitives.get? kind = (e.primitives.get? kind).map Schema.settled :=
    Table.get?_map _ _ _
  rw [primitive?_of_register h, primitive?_of_register h', Table.contains, hfound]
  cases e.primitives.get? kind <;> rfl

end Registry

namespace Extension

/-- What comes of encoding an extension without hooks and reading it again. -/
structure SettlesInJson (e : Extension) : Prop where
  restored : decode (ofJson e.toJson) = .ok e.settled
  whole : decode (ofJson e.toJson) = .ok e ↔ e.HasNoNull
  /-- Both are refused, and for the same reason, or both are registered. -/
  refused : ∀ (r : Registry) fault, r.register e.settled = .error fault ↔
    r.register e = .error fault
  shown : ∀ r next next' : Registry, r.register e = .ok next →
    r.register e.settled = .ok next' → ∀ kind, next'.primitive? kind =
      if e.primitives.contains kind then (next.primitive? kind).map Schema.settled
      else next.primitive? kind

/-- The same of an extension of which nothing is lost. -/
structure SurvivesReading (e : Extension) : Prop where
  restored : decode (ofJson e.toJson) = .ok e
  registered : ∀ (r : Registry) again, decode (ofJson e.toJson) = .ok again →
    r.register again = r.register e ∧
      ∀ next next', r.register e = .ok next → r.register again = .ok next' →
        ∀ kind, next'.primitive? kind = next.primitive? kind

/-- Encoding a schema or an extension and reading it again loses the defaults that are null and
nothing else, and there are none in what was read of JSON. -/
theorem settles_in_json :
    (∀ s : Schema, Schema.decode (ofJson s.toJson) = .ok s.settled ∧
      (s.settled = s ↔ s.HasNoNull)) ∧
    (∀ e : Extension, e.middleware = [] → e.SettlesInJson) ∧
    ∀ (d : Datum) (e : Extension), d.StatedInJson → decode d = .ok e → e.SurvivesReading := by
  have hrestored (e : Extension) (hnone : e.middleware = []) :
      decode (ofJson e.toJson) = .ok e.settled := by
    rw [decode_toJson, ← hnone]
    rfl
  refine ⟨fun s ↦ ⟨s.decode_toJson, Schema.settled_eq_self_iff⟩, fun e hnone ↦ ?_,
    fun d e hd hread ↦ ?_⟩
  · have hwhole : decode (ofJson e.toJson) = .ok e ↔ e.HasNoNull := by
      rw [hrestored e hnone, Except.ok.injEq, settled_eq_self_iff]
    exact ⟨hrestored e hnone, hwhole, fun r fault ↦ Registry.register_settled_eq_error_iff,
      fun r next next' ↦ Registry.primitive?_of_register_settled⟩
  · obtain ⟨hsettled, hnone⟩ := ensures_settled d hd.explicit e hread
    have hsame : decode (ofJson e.toJson) = .ok e :=
      (hrestored e hnone).trans (congrArg Except.ok hsettled)
    refine ⟨hsame, fun r again hagain ↦ ?_⟩
    obtain rfl : e = again := Except.ok.inj (hsame.symm.trans hagain)
    refine ⟨rfl, fun next next' h h' kind ↦ ?_⟩
    rw [Except.ok.inj (h.symm.trans h')]

/-- An extension with a default that is null and one that has null inside, and two that are read:
a record with an unknown member, a schema in list form and nulls for what is optional, and a text
with a list of the two fields that must be there. -/
theorem settles_in_json_kit :
    let dial := ((Schema.empty "x-dial").withAttribute "level" (.defaulting .number .null))
      |>.withAttribute "args" (.defaulting .object (.obj [("a", .null)]))
    let kit := (bare "kit" "1").withPrimitive dial
    let lit := (Schema.empty "").withAttribute "on" (.optional .boolean)
    let lamp := { bare "lamp" "1" with primitives := Table.empty.insert "x-lamp" lit }
    kit.SettlesInJson ∧ kit.settled ≠ kit ∧
      decode (ofJson (.obj [("note", .null), ("version", .str "1"), ("name", .str "lamp"),
        ("primitives", .obj [("x-lamp", .arr [.str "", .obj [("on", .obj [("default", .null),
          ("type", .str "boolean"), ("description", .null)])]])])])) = .ok lamp ∧
      lamp.SurvivesReading ∧
      ∃ d, Json.readDatum "[\"bare\", \"1\"]" = .ok d ∧ decode d = .ok (bare "bare" "1") ∧
        (bare "bare" "1").SurvivesReading := by
  intro dial kit lit lamp
  obtain ⟨-, hsettles, hsurvives⟩ := settles_in_json
  have hkit : kit.settled ≠ kit := by
    intro h
    have hlevel := congrArg (fun e : Extension ↦ (e.primitives.get? "x-dial").bind fun s ↦
      ((s.attribute? "level").bind AttributeSpec.default).map Json.isNull) h
    revert hlevel
    decide
  have hlamp : decode (ofJson (.obj [("note", .null), ("version", .str "1"),
      ("name", .str "lamp"), ("primitives", .obj [("x-lamp", .arr [.str "",
        .obj [("on", .obj [("default", .null), ("type", .str "boolean"),
          ("description", .null)])]])])])) = .ok lamp := rfl
  have hbare : Json.readDatum "[\"bare\", \"1\"]" =
      .ok (.list true [.scalar (.str "bare"), .scalar (.str "1")]) := rfl
  exact ⟨hsettles kit rfl, hkit, hlamp, hsurvives _ _ (.value _) hlamp, _, hbare, rfl,
    hsurvives _ _ (.text hbare) rfl⟩

end Extension

end AgentMarkup
