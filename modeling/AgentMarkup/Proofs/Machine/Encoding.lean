import AgentMarkup.Proofs.Datum.Encoded
import AgentMarkup.Proofs.Machine.Path

/-!
Configurations survive their encoding. A definition is read back from its encoding as it was
(`Definition.decode_toJson`), whatever its names and however many rows without events it has, so
its encoding determines it. What a configuration is made of is closed, wherever it comes from
(`Config.Admitted`), so reading the encoding accepts it again and seals it with the same
checksum (`Config.survives_encoding`).
-/

set_option autoImplicit false
set_option relaxedAutoImplicit false

namespace AgentMarkup.Machine

open Datum

/-- A definition is read back from its encoding as it was. -/
theorem Definition.decode_toJson (d : Definition) : decode (.ofJson d.toJson) = .ok d := by
  have hrows : asTable (asTable asText) (.ofJson (.obj (d.transitions.entries.map
      fun row ↦ (row.1, row.2.toJson)))) = .ok d.transitions :=
    asTable_ofJson fun row _ ↦ asTable_ofJson_texts row.2
  have hstates := asList_ofJson_strs d.states
  rw [decode, toJson, asFields_ofJson]
  simp only [List.map_cons, List.map_nil, bind, Except.bind, requiredField, defaultField]
  simp [List.lookup_cons, asText_ofJson, hstates, hrows, pure, Except.pure]

theorem Definition.toJson_inj {a b : Definition} : a.toJson = b.toJson ↔ a = b := by
  constructor
  · intro h
    have hdecoded := congrArg (fun value ↦ decode (.ofJson value)) h
    simp only [decode_toJson] at hdecoded
    exact Except.ok.inj hdecoded
  · intro h
    rw [h]

namespace Config

variable {c : Config}

theorem ofJson_toJson (name : String) (c : Config) :
    ofJson name c.toJson = (ofDefinition name c.definition).mapError .invalid := by
  rw [ofJson, toJson, Definition.decode_toJson]

theorem name_of_ofJson {name : String} {value : Json} (h : ofJson name value = .ok c) :
    c.name = name := by
  obtain ⟨d, hmade⟩ := exists_of_ofJson h
  obtain ⟨-, rfl⟩ := ofDefinition_eq_ok_iff.mp hmade
  rfl

/-- What comes of encoding a configuration and reading it again. -/
structure SurvivesEncoding (c : Config) : Prop where
  restored : ofJson c.name c.toJson = .ok c
  renamed : ∀ name, ofJson name c.toJson = .ok { c with name }
  /-- Whatever data it was read from, its encoding is read as the same configuration. -/
  reread : ∀ name value, ofJson name value = .ok c → ofJson name c.toJson = .ok c
  /-- Another configuration with the same encoding differs in its name at most. -/
  determined : ∀ other : Config, other.Admitted → other.toJson = c.toJson →
    other.definition = c.definition ∧ other.checksum = c.checksum

/-- Every configuration survives its encoding. -/
theorem survives_encoding (h : c.Admitted) : c.SurvivesEncoding := by
  obtain ⟨hclosed, hmade⟩ := ofDefinition_eq_ok_iff.mp h.remade
  have hrenamed (name : String) : ofJson name c.toJson = .ok { c with name } := by
    have hnamed : ofDefinition name c.definition = .ok { c with name } := by
      refine ofDefinition_eq_ok_iff.mpr ⟨hclosed, ?_⟩
      rw [hmade]
      rfl
    rw [ofJson_toJson, hnamed]
    rfl
  refine ⟨hrenamed c.name, hrenamed, fun name value hvalue ↦ ?_, fun other hother hsame ↦ ?_⟩
  · obtain rfl := name_of_ofJson hvalue
    exact hrenamed c.name
  · obtain ⟨-, hothermade⟩ := ofDefinition_eq_ok_iff.mp hother.remade
    have hdefinition : other.definition = c.definition := Definition.toJson_inj.mp hsame
    refine ⟨hdefinition, ?_⟩
    rw [hothermade, hmade, hdefinition]
    rfl

/-- A configuration given as a list of its fields, without transitions, one given as a record
with a member that means nothing and with names that are empty or take two lines, and one that
is there without being defined. -/
theorem survives_encoding_forms :
    ∃ lamp odd tool : Config,
      ofJson "lamp" (.arr [.str "on", .strs ["on", "off"]]) = .ok lamp ∧
      lamp.definition.transitions = .empty ∧ lamp.SurvivesEncoding ∧
      ofJson "odd" (.obj [("initial", .str ""), ("note", .int 3), ("states", .strs ["", "a\nb"]),
        ("transitions", .obj [("", .obj [("", .str "a\nb")]), ("a\nb", .obj [])])]) = .ok odd ∧
      odd.target? "" "" = some "a\nb" ∧ odd.SurvivesEncoding ∧
      builtin? "tool" = .ok tool ∧ tool.SurvivesEncoding := by
  have hlamp : ofJson "lamp" (.arr [.str "on", .strs ["on", "off"]]) =
      .ok (ofClosed "lamp" ⟨"on", ["on", "off"], .empty⟩) := rfl
  have hodd : ofJson "odd" (.obj [("initial", .str ""), ("note", .int 3),
      ("states", .strs ["", "a\nb"]),
      ("transitions", .obj [("", .obj [("", .str "a\nb")]), ("a\nb", .obj [])])]) =
        .ok (ofClosed "odd" ⟨"", ["", "a\nb"],
          .ofList [("", .ofList [("", "a\nb")]), ("a\nb", .empty)]⟩) := rfl
  have htool : builtin? "tool" = .ok Lifecycle.tool.config := rfl
  exact ⟨_, _, _, hlamp, rfl, survives_encoding (.ofJson hlamp), hodd, rfl,
    survives_encoding (.ofJson hodd), htool, survives_encoding (.builtin htool)⟩

end Config

end AgentMarkup.Machine
