import AgentMarkup.Machine.Config
import AgentMarkup.Proofs.Table

/-!
Which definitions are accepted. A definition has no fault exactly if it is closed
(`Definition.fault?_eq_none_iff`): its states differ, and the initial state, the source of
every row and every target are among them. Then the configuration made of it holds the
definition as it is (`Config.ofDefinition_eq_ok_iff`), and reading from data is no other way
in (`Config.exists_of_ofJson`).
-/

set_option autoImplicit false
set_option relaxedAutoImplicit false

namespace AgentMarkup.Machine

/-- What a definition has to satisfy to be accepted. -/
structure Definition.Closed (d : Definition) : Prop where
  distinct : d.states.Nodup
  initial : d.initial ∈ d.states
  source : ∀ state row, d.transitions.get? state = some row → state ∈ d.states
  target : ∀ state event next, d.target? state event = some next → next ∈ d.states

namespace Definition

variable {d : Definition}

theorem firstRepeated_eq_none_iff {seen states : List String} :
    firstRepeated seen states = none ↔ states.Nodup ∧ ∀ state ∈ states, state ∉ seen := by
  induction states generalizing seen with
  | nil => simp [firstRepeated]
  | cons state rest ih =>
    rw [firstRepeated]
    by_cases hseen : seen.contains state = true
    · rw [if_pos hseen]
      have hmem : state ∈ seen := List.contains_iff_mem.mp hseen
      simp [hmem]
    · rw [if_neg hseen, ih]
      have hmem : state ∉ seen := mt List.contains_iff_mem.mpr hseen
      simp only [List.mem_cons, List.nodup_cons, not_or]
      constructor
      · rintro ⟨hrest, hnew⟩
        refine ⟨⟨fun h ↦ (hnew state h).1 rfl, hrest⟩, ?_⟩
        rintro other (rfl | h)
        · exact hmem
        · exact (hnew other h).2
      · rintro ⟨⟨hstate, hrest⟩, hnew⟩
        refine ⟨hrest, fun other h ↦ ⟨?_, hnew other (Or.inr h)⟩⟩
        rintro rfl
        exact hstate h

theorem hasState_iff {state : String} : d.hasState state = true ↔ state ∈ d.states :=
  List.contains_iff_mem

theorem rowFault?_eq_none_iff {row : String × Table String} :
    d.rowFault? row = none ↔ row.1 ∈ d.states ∧
      ∀ event next, row.2.get? event = some next → next ∈ d.states := by
  unfold rowFault?
  by_cases hsource : d.hasState row.1 = true
  · rw [if_neg (by simp [hsource]), List.findSome?_eq_none_iff]
    simp only [Table.get?_eq_some_iff, Prod.forall, ← hasState_iff, hsource, true_and]
    refine forall₂_congr fun event next ↦ forall_congr' fun _ ↦ ?_
    by_cases hnext : d.hasState next = true <;> simp [hnext]
  · rw [if_pos (by simp [hsource])]
    simp [← hasState_iff, hsource]

/-- A definition has no fault exactly if it is closed. The rows are looked through with their
targets, which are what a state and an event lead to. -/
theorem fault?_eq_none_iff : d.fault? = none ↔ d.Closed := by
  have hrows : d.transitions.entries.findSome? d.rowFault? = none ↔
      ∀ state row, d.transitions.get? state = some row → state ∈ d.states ∧
        ∀ event next, row.get? event = some next → next ∈ d.states := by
    rw [List.findSome?_eq_none_iff]
    simp only [Prod.forall, rowFault?_eq_none_iff, Table.get?_eq_some_iff]
  unfold fault?
  by_cases hempty : d.states = []
  · rw [if_pos hempty]
    refine iff_of_false (by simp) fun h ↦ ?_
    have hinitial := h.initial
    rw [hempty] at hinitial
    exact absurd hinitial List.not_mem_nil
  · rw [if_neg hempty]
    cases hrepeated : firstRepeated [] d.states with
    | some state =>
      refine iff_of_false (by simp) fun h ↦ ?_
      have hnone := firstRepeated_eq_none_iff.mpr ⟨h.distinct, fun _ _ ↦ List.not_mem_nil⟩
      rw [hrepeated] at hnone
      exact absurd hnone (by simp)
    | none =>
      have hdistinct := (firstRepeated_eq_none_iff.mp hrepeated).1
      by_cases hinitial : d.hasState d.initial = true
      · simp only [hinitial, Bool.not_true, Bool.false_eq_true, if_false]
        rw [hrows]
        constructor
        · intro h
          refine ⟨hdistinct, hasState_iff.mp hinitial, ?_, ?_⟩
          · exact fun state row hrow ↦ (h state row hrow).1
          · intro state event next hnext
            obtain ⟨row, hrow, hevent⟩ := Option.bind_eq_some_iff.mp hnext
            exact (h state row hrow).2 event next hevent
        · intro h state row hrow
          refine ⟨h.source state row hrow, fun event next hnext ↦ h.target state event next ?_⟩
          exact Option.bind_eq_some_iff.mpr ⟨row, hrow, hnext⟩
      · simp only [hinitial, Bool.not_false, if_true]
        exact iff_of_false (by simp) fun h ↦ hinitial (hasState_iff.mpr h.initial)

end Definition

namespace Config

variable {name : String} {d : Definition} {c : Config}

theorem ofDefinition_eq_ok_iff :
    ofDefinition name d = .ok c ↔ d.Closed ∧ c = ofClosed name d := by
  rw [← Definition.fault?_eq_none_iff, ofDefinition]
  cases d.fault? with
  | none => simp [eq_comm]
  | some fault => simp

/-- What is read from data was made of the definition that the data hold. -/
theorem exists_of_ofJson {value : Json} (h : ofJson name value = .ok c) :
    ∃ d, ofDefinition name d = .ok c := by
  unfold ofJson at h
  cases hdecode : Definition.decode (.ofJson value) with
  | error fault =>
    rw [hdecode] at h
    exact absurd h (by simp)
  | ok d =>
    rw [hdecode] at h
    refine ⟨d, ?_⟩
    cases hmade : ofDefinition name d with
    | error fault => simp [hmade, Except.mapError] at h
    | ok made => simpa [hmade, Except.mapError] using h

end Config

end AgentMarkup.Machine
