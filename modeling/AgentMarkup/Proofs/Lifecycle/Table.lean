import AgentMarkup.Lifecycle.Builtin
import AgentMarkup.Proofs.Machine.Closed

/-!
The table that a lifecycle makes up. If the listed values of a type are all that there are and
their labels differ (`Labelled.Faithful`), a value is found again by its label. Looking up the
labels of a state and an event in the derived definition then gives the label of what the
lifecycle says (`Lifecycle.target?_definition`), and the definition is closed, so it would be
accepted as it is (`Lifecycle.ofDefinition_definition`). The lifecycles of streams, tools and
approvals are of this kind.
-/

set_option autoImplicit false
set_option relaxedAutoImplicit false

namespace AgentMarkup

open Labelled

/-! ### Labels -/

/-- Whether the listed values are all values, and no two of the list have the same label. -/
structure Labelled.Faithful (α : Type) [Labelled α] : Prop where
  complete : ∀ value : α, value ∈ all
  distinct : (labels α).Nodup

namespace Labelled

variable {α : Type} [Labelled α]

theorem Faithful.label_inj (h : Faithful α) {a b : α} : label a = label b ↔ a = b := by
  constructor
  · exact List.inj_on_of_nodup_map h.distinct (h.complete a) (h.complete b)
  · exact congrArg label

theorem Faithful.ofLabel?_eq_some_iff (h : Faithful α) {text : String} {value : α} :
    ofLabel? text = some value ↔ label value = text := by
  unfold ofLabel?
  constructor
  · intro hfound
    have hlabel := List.find?_some hfound
    exact beq_iff_eq.mp hlabel
  · rintro rfl
    cases hfound : (all (α := α)).find? fun other ↦ label other == label value with
    | none =>
      rw [List.find?_eq_none] at hfound
      exact absurd BEq.rfl (hfound value (h.complete value))
    | some other =>
      have hlabel := List.find?_some hfound
      exact congrArg some (h.label_inj.mp (beq_iff_eq.mp hlabel))

theorem Faithful.ofLabel?_label (h : Faithful α) (value : α) :
    ofLabel? (label value) = some value :=
  h.ofLabel?_eq_some_iff.mpr rfl

theorem Faithful.label_mem_labels (h : Faithful α) (value : α) : label value ∈ labels α :=
  List.mem_map_of_mem (h.complete value)

end Labelled

/-! ### The derived table -/

namespace Lifecycle

variable {S E : Type} [Labelled S] [Labelled E] {l : Lifecycle S E}

/-- The events that the lifecycle accepts in a state, as listed. -/
def accepted (l : Lifecycle S E) (state : S) : List E :=
  all.filter fun event ↦ (l.next state event).isSome

theorem map_fst_filterMap {α β : Type} (key : α → String) (value : β → String)
    (f : α → Option β) (xs : List α) :
    (xs.filterMap fun x ↦ (f x).map fun y ↦ (key x, value y)).map Prod.fst =
      (xs.filter fun x ↦ (f x).isSome).map key := by
  induction xs with
  | nil => rfl
  | cons x rest ih =>
    cases hx : f x with
    | none =>
      rw [List.filterMap_cons_none (by simp [hx]), List.filter_cons_of_neg (by simp [hx]), ih]
    | some y =>
      rw [List.filterMap_cons_some (by rw [hx]; rfl), List.filter_cons_of_pos (by simp [hx]),
        List.map_cons, List.map_cons, ih]

/-- A row has a target under a text if the text labels an event that the state accepts. -/
theorem get?_row_eq_some_iff (hE : Faithful E) {state : S} {text target : String} :
    (l.row state).get? text = some target ↔
      ∃ event next, label event = text ∧ l.next state event = some next ∧ label next = target := by
  have hkeys : (((all (α := E)).filterMap fun event ↦
      (l.next state event).map fun next ↦ (label event, label next)).map Prod.fst).Nodup := by
    rw [map_fst_filterMap]
    exact hE.distinct.sublist (List.filter_sublist.map label)
  rw [row, Table.get?_ofList, Table.lookup_eq_some_iff_mem (by simpa using hkeys),
    List.mem_reverse, List.mem_filterMap]
  constructor
  · rintro ⟨event, -, hentry⟩
    obtain ⟨next, hnext, heq⟩ := Option.map_eq_some_iff.mp hentry
    simp only [Prod.mk.injEq] at heq
    exact ⟨event, next, heq.1, hnext, heq.2⟩
  · rintro ⟨event, next, rfl, hnext, rfl⟩
    exact ⟨event, hE.complete event, by rw [hnext]; rfl⟩

theorem get?_row_label (hE : Faithful E) (state : S) (event : E) :
    (l.row state).get? (label event) = (l.next state event).map label := by
  ext target
  rw [get?_row_eq_some_iff hE, Option.map_eq_some_iff]
  constructor
  · rintro ⟨other, next, hlabel, hnext, rfl⟩
    obtain rfl := hE.label_inj.mp hlabel
    exact ⟨next, hnext, rfl⟩
  · rintro ⟨next, hnext, rfl⟩
    exact ⟨event, next, rfl, hnext, rfl⟩

theorem get?_transitions_eq_some_iff (hS : Faithful S) {text : String} {row : Table String} :
    l.definition.transitions.get? text = some row ↔
      ∃ state, label state = text ∧ l.row state = row := by
  have hkeys : (((all (α := S)).map fun state ↦ (label state, l.row state)).reverse.map
      Prod.fst).Nodup := by
    rw [List.map_reverse, List.nodup_reverse, List.map_map]
    exact hS.distinct
  rw [definition, Table.get?_ofList, Table.lookup_eq_some_iff_mem hkeys, List.mem_reverse,
    List.mem_map]
  simp only [Prod.mk.injEq]
  constructor
  · rintro ⟨state, -, hstate⟩
    exact ⟨state, hstate⟩
  · rintro ⟨state, hstate⟩
    exact ⟨state, hS.complete state, hstate⟩

theorem get?_transitions_label (hS : Faithful S) (state : S) :
    l.definition.transitions.get? (label state) = some (l.row state) :=
  (get?_transitions_eq_some_iff hS).mpr ⟨state, rfl, rfl⟩

/-- The table takes the labels of a state and an event to the label of what the lifecycle takes
the state and the event to. -/
theorem target?_definition (hS : Faithful S) (hE : Faithful E) (state : S) (event : E) :
    l.definition.target? (label state) (label event) = (l.next state event).map label := by
  rw [Machine.Definition.target?, get?_transitions_label hS, Option.bind_some, get?_row_label hE]

theorem closed_definition (hS : Faithful S) (hE : Faithful E) : l.definition.Closed where
  distinct := hS.distinct
  initial := hS.label_mem_labels l.initial
  source text row hrow := by
    obtain ⟨state, rfl, -⟩ := (get?_transitions_eq_some_iff hS).mp hrow
    exact hS.label_mem_labels state
  target text event target htarget := by
    obtain ⟨row, hrow, hevent⟩ := Option.bind_eq_some_iff.mp htarget
    obtain ⟨state, rfl, rfl⟩ := (get?_transitions_eq_some_iff hS).mp hrow
    obtain ⟨-, next, -, -, rfl⟩ := (get?_row_eq_some_iff hE).mp hevent
    exact hS.label_mem_labels next

/-- The derived definition is accepted as it is. -/
theorem ofDefinition_definition (hS : Faithful S) (hE : Faithful E) :
    Machine.Config.ofDefinition l.kind l.definition = .ok l.config :=
  Machine.Config.ofDefinition_eq_ok_iff.mpr ⟨closed_definition hS hE, rfl⟩

end Lifecycle

/-! ### The lifecycles that are there -/

theorem Lifecycle.Stream.faithful_state : Faithful Lifecycle.Stream.State :=
  ⟨fun state ↦ by cases state <;> decide, by decide⟩

theorem Lifecycle.Stream.faithful_event : Faithful Lifecycle.Stream.Event :=
  ⟨fun event ↦ by cases event <;> decide, by decide⟩

theorem Lifecycle.Tool.faithful_state : Faithful Lifecycle.Tool.State :=
  ⟨fun state ↦ by cases state <;> decide, by decide⟩

theorem Lifecycle.Tool.faithful_event : Faithful Lifecycle.Tool.Event :=
  ⟨fun event ↦ by cases event <;> decide, by decide⟩

theorem Lifecycle.Approve.faithful_state : Faithful Lifecycle.Approve.State :=
  ⟨fun state ↦ by cases state <;> decide, by decide⟩

theorem Lifecycle.Approve.faithful_event : Faithful Lifecycle.Approve.Event :=
  ⟨fun event ↦ by cases event <;> decide, by decide⟩

/-- A configuration that is there without being defined was derived from a lifecycle, so it is
what its own definition would be made into. -/
theorem Machine.ofDefinition_of_builtin? {kind : String} {c : Machine.Config}
    (h : Machine.builtin? kind = .ok c) :
    Machine.Config.ofDefinition c.name c.definition = .ok c := by
  have hfound : builtins.get? kind = some c := by
    unfold builtin? at h
    split at h
    · rename_i hfound
      exact (Except.ok.inj h) ▸ hfound
    · exact absurd h (by simp)
  have hkinds : (([Lifecycle.stream.config, Lifecycle.tool.config, Lifecycle.approve.config].map
      fun config ↦ (config.name, config)).reverse.map Prod.fst).Nodup := by
    decide
  rw [builtins, Table.get?_ofList, Table.lookup_eq_some_iff_mem hkinds, List.mem_reverse,
    List.mem_map] at hfound
  obtain ⟨config, hconfig, heq⟩ := hfound
  obtain rfl := (Prod.mk.inj heq).2
  simp only [List.mem_cons, List.not_mem_nil, or_false] at hconfig
  rcases hconfig with rfl | rfl | rfl
  · exact Lifecycle.ofDefinition_definition Lifecycle.Stream.faithful_state
      Lifecycle.Stream.faithful_event
  · exact Lifecycle.ofDefinition_definition Lifecycle.Tool.faithful_state
      Lifecycle.Tool.faithful_event
  · exact Lifecycle.ofDefinition_definition Lifecycle.Approve.faithful_state
      Lifecycle.Approve.faithful_event

end AgentMarkup
