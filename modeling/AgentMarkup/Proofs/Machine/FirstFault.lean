import AgentMarkup.Proofs.Machine.Closed

/-!
What a definition is told about. `Definition.Breaks` says of a fault that it is the first one:
the rules are gone through in the order in which they are written down there, the states in
list order, and the rows and the events of a row in key order, each source before its targets.
A definition has the first fault and no other (`Definition.fault?_eq_some_iff`), so a
configuration is made of the closed definitions and every other one is refused with the first
rule that it breaks (`Config.ofDefinition_decides`). `DefinitionFault.Says` has the text that goes
with each rule, and the message of a refusal is that of the first broken one
(`Config.message_of_refused_iff`).
-/

set_option autoImplicit false
set_option relaxedAutoImplicit false

namespace AgentMarkup.Machine

namespace Definition

/-- Whether a row and its targets are all declared. -/
def Declares (d : Definition) (state : String) (row : Table String) : Prop :=
  state ∈ d.states ∧ ∀ event next, row.get? event = some next → next ∈ d.states

/-- Whether the rules that come before the transitions are kept. -/
def Begins (d : Definition) : Prop :=
  d.states.Nodup ∧ d.initial ∈ d.states

/-- Whether all rows before that of a state are declared with their targets. -/
def DeclaresBefore (d : Definition) (state : String) : Prop :=
  ∀ source row, source < state → d.transitions.get? source = some row → d.Declares source row

/-- The first rule that a definition breaks. -/
inductive Breaks (d : Definition) : DefinitionFault → Prop
  | noStates (h : d.states = []) : Breaks d .noStates
  | duplicateState {before after : List String} {state : String}
    (hstates : d.states = before ++ state :: after) (hbefore : before.Nodup)
    (h : state ∈ before) : Breaks d (.duplicateState state)
  | undeclaredInitial (hsome : d.states ≠ []) (hdistinct : d.states.Nodup)
    (h : d.initial ∉ d.states) : Breaks d (.undeclaredInitial d.initial)
  | undeclaredSource {state : String} {row : Table String} (hbegins : d.Begins)
    (hrow : d.transitions.get? state = some row) (hbefore : d.DeclaresBefore state)
    (h : state ∉ d.states) : Breaks d (.undeclaredSource state)
  | undeclaredTarget {state event target : String} {row : Table String} (hbegins : d.Begins)
    (hrow : d.transitions.get? state = some row) (hbefore : d.DeclaresBefore state)
    (hsource : state ∈ d.states) (htarget : row.get? event = some target)
    (hearlier : ∀ e next, e < event → row.get? e = some next → next ∈ d.states)
    (h : target ∉ d.states) : Breaks d (.undeclaredTarget target event state)

variable {d : Definition}

/-! ### States and rows -/

/-- Whether a state is the first in a list that was seen before, be it in the list or outside. -/
def RepeatsFirst (seen states : List String) (state : String) : Prop :=
  ∃ before after, states = before ++ state :: after ∧ before.Nodup ∧
    (∀ other ∈ before, other ∉ seen) ∧ (state ∈ before ∨ state ∈ seen)

section

variable {seen states : List String} {head state : String}

theorem repeatsFirst_cons_of_mem (h : head ∈ seen) :
    RepeatsFirst seen (head :: states) state ↔ head = state := by
  constructor
  · rintro ⟨before, after, hsplit, -, hnew, -⟩
    cases before with
    | nil => exact (List.cons.inj hsplit).1
    | cons first others =>
      obtain rfl := (List.cons.inj hsplit).1
      exact absurd h (hnew head List.mem_cons_self)
  · rintro rfl
    exact ⟨[], states, rfl, List.nodup_nil, by simp, Or.inr h⟩

/-- A new state is seen from then on. -/
theorem RepeatsFirst.cons (hhead : head ∉ seen) (h : RepeatsFirst (head :: seen) states state) :
    RepeatsFirst seen (head :: states) state := by
  obtain ⟨before, after, rfl, hbefore, hnew, hstate⟩ := h
  have hfresh : head ∉ before := fun hmem ↦ hnew head hmem List.mem_cons_self
  refine ⟨head :: before, after, rfl, List.nodup_cons.mpr ⟨hfresh, hbefore⟩, ?_, ?_⟩
  · intro other hother
    rcases List.mem_cons.mp hother with rfl | hother
    · exact hhead
    · exact fun hmem ↦ hnew other hother (List.mem_cons_of_mem head hmem)
  · rw [List.mem_cons] at hstate ⊢
    rcases hstate with h | rfl | h
    · exact Or.inl (Or.inr h)
    · exact Or.inl (Or.inl rfl)
    · exact Or.inr h

theorem RepeatsFirst.of_cons (hhead : head ∉ seen) (h : RepeatsFirst seen (head :: states) state) :
    RepeatsFirst (head :: seen) states state := by
  obtain ⟨before, after, hsplit, hbefore, hnew, hstate⟩ := h
  cases before with
  | nil =>
    -- the head would be the repeated state, but it was not seen before
    obtain rfl := (List.cons.inj hsplit).1
    exact absurd (hstate.resolve_left List.not_mem_nil) hhead
  | cons first others =>
    obtain ⟨rfl, rfl⟩ := List.cons.inj hsplit
    obtain ⟨hfresh, hothers⟩ := List.nodup_cons.mp hbefore
    refine ⟨others, after, rfl, hothers, fun other hother hmem ↦ ?_, ?_⟩
    · rcases List.mem_cons.mp hmem with rfl | hmem
      · exact hfresh hother
      · exact hnew other (List.mem_cons_of_mem _ hother) hmem
    · rw [List.mem_cons] at hstate ⊢
      rcases hstate with (rfl | h) | h
      · exact Or.inr (Or.inl rfl)
      · exact Or.inl h
      · exact Or.inr (Or.inr h)

theorem firstRepeated_eq_some_iff :
    firstRepeated seen states = some state ↔ RepeatsFirst seen states state := by
  induction states generalizing seen with
  | nil => simp [firstRepeated, RepeatsFirst]
  | cons head rest ih =>
    rw [firstRepeated]
    by_cases hseen : seen.contains head = true
    · have hhead : head ∈ seen := List.contains_iff_mem.mp hseen
      rw [if_pos hseen, Option.some.injEq, repeatsFirst_cons_of_mem hhead]
    · have hhead : head ∉ seen := mt List.contains_iff_mem.mpr hseen
      rw [if_neg hseen, ih]
      exact ⟨.cons hhead, .of_cons hhead⟩

end

theorem rowFault?_eq_some_iff {state : String} {row : Table String} {fault : DefinitionFault} :
    d.rowFault? (state, row) = some fault ↔
      (state ∉ d.states ∧ fault = .undeclaredSource state) ∨
      (state ∈ d.states ∧ ∃ event target, row.get? event = some target ∧ target ∉ d.states ∧
        (∀ e next, e < event → row.get? e = some next → next ∈ d.states) ∧
        fault = .undeclaredTarget target event state) := by
  unfold rowFault?
  by_cases hsource : d.hasState state = true
  · have hstate : state ∈ d.states := hasState_iff.mp hsource
    rw [if_neg (by simp [hsource]), Table.findSome?_entries_eq_some_iff]
    simp only [hstate, not_true_eq_false, false_and, false_or, true_and, ← hasState_iff,
      Option.ite_none_left_eq_some, Option.some.injEq, ite_eq_left_iff, reduceCtorEq,
      Bool.not_eq_true, imp_false, Bool.not_eq_false]
    refine exists_congr fun event ↦ exists_congr fun target ↦ and_congr_right fun _ ↦ ?_
    tauto
  · have hstate : state ∉ d.states := mt hasState_iff.mpr hsource
    rw [if_pos (by simp [hsource]), Option.some.injEq]
    constructor
    · rintro rfl
      exact Or.inl ⟨hstate, rfl⟩
    · rintro (⟨-, rfl⟩ | ⟨hdeclared, -⟩)
      · rfl
      · exact absurd hdeclared hstate

/-! ### The first fault -/

/-- Where the rules before the transitions are kept the rows decide. -/
theorem fault?_of_begins (h : d.Begins) :
    d.fault? = d.transitions.entries.findSome? d.rowFault? := by
  have hsome : d.states ≠ [] := List.ne_nil_of_mem h.2
  have hdistinct : firstRepeated [] d.states = none :=
    firstRepeated_eq_none_iff.mpr ⟨h.1, fun _ _ ↦ List.not_mem_nil⟩
  have hinitial : d.hasState d.initial = true := hasState_iff.mpr h.2
  simp only [fault?, if_neg hsome, hdistinct, hinitial, Bool.not_true, Bool.false_eq_true,
    if_false]

theorem fault?_of_breaks {fault : DefinitionFault} (h : d.Breaks fault) :
    d.fault? = some fault := by
  cases h with
  | noStates h => rw [fault?, if_pos h]
  | @duplicateState before after state hstates hbefore h =>
    have hsome : d.states ≠ [] := by simp [hstates]
    have hrepeated : firstRepeated [] d.states = some state :=
      firstRepeated_eq_some_iff.mpr
        ⟨before, after, hstates, hbefore, fun _ _ ↦ List.not_mem_nil, Or.inl h⟩
    simp only [fault?, if_neg hsome, hrepeated]
  | undeclaredInitial hsome hdistinct h =>
    have hnone : firstRepeated [] d.states = none :=
      firstRepeated_eq_none_iff.mpr ⟨hdistinct, fun _ _ ↦ List.not_mem_nil⟩
    have hinitial : ¬d.hasState d.initial = true := mt hasState_iff.mp h
    simp only [fault?, if_neg hsome, hnone, hinitial, Bool.not_false, if_true]
  | undeclaredSource hbegins hrow hbefore h =>
    rw [fault?_of_begins hbegins, Table.findSome?_entries_eq_some_iff]
    exact ⟨_, _, hrow, rowFault?_eq_some_iff.mpr (Or.inl ⟨h, rfl⟩),
      fun source row hlt hget ↦ rowFault?_eq_none_iff.mpr (hbefore source row hlt hget)⟩
  | undeclaredTarget hbegins hrow hbefore hsource htarget hearlier h =>
    rw [fault?_of_begins hbegins, Table.findSome?_entries_eq_some_iff]
    exact ⟨_, _, hrow,
      rowFault?_eq_some_iff.mpr (Or.inr ⟨hsource, _, _, htarget, h, hearlier, rfl⟩),
      fun source row hlt hget ↦ rowFault?_eq_none_iff.mpr (hbefore source row hlt hget)⟩

/-- A definition has the first fault and no other. -/
theorem fault?_eq_some_iff {fault : DefinitionFault} :
    d.fault? = some fault ↔ d.Breaks fault := by
  refine ⟨fun hfault ↦ ?_, fault?_of_breaks⟩
  have hsame {other : DefinitionFault} (h : d.Breaks other) : d.Breaks fault := by
    obtain rfl := Option.some.inj ((fault?_of_breaks h).symm.trans hfault)
    exact h
  by_cases hempty : d.states = []
  · exact hsame (.noStates hempty)
  · cases hrepeated : firstRepeated [] d.states with
    | some state =>
      obtain ⟨before, after, hstates, hbefore, -, hstate⟩ :=
        firstRepeated_eq_some_iff.mp hrepeated
      exact hsame (.duplicateState hstates hbefore (hstate.resolve_right List.not_mem_nil))
    | none =>
      have hdistinct := (firstRepeated_eq_none_iff.mp hrepeated).1
      by_cases hinitial : d.initial ∈ d.states
      · have hbegins : d.Begins := ⟨hdistinct, hinitial⟩
        rw [fault?_of_begins hbegins, Table.findSome?_entries_eq_some_iff] at hfault
        obtain ⟨state, row, hrow, hbroken, hearlier⟩ := hfault
        have hbefore : d.DeclaresBefore state :=
          fun source row hlt hget ↦ rowFault?_eq_none_iff.mp (hearlier source row hlt hget)
        obtain ⟨hstate, rfl⟩ | ⟨hstate, event, target, htarget, hnot, hfirst, rfl⟩ :=
          rowFault?_eq_some_iff.mp hbroken
        · exact .undeclaredSource hbegins hrow hbefore hstate
        · exact .undeclaredTarget hbegins hrow hbefore hstate htarget hfirst hnot
      · exact hsame (.undeclaredInitial hempty hdistinct hinitial)

end Definition

/-! ### Messages -/

/-- The message that goes with each broken rule. -/
inductive DefinitionFault.Says : DefinitionFault → String → Prop
  | noStates : Says .noStates "invalid machine definition: no states declared"
  | duplicateState (state : String) : Says (.duplicateState state)
    ("invalid machine definition: duplicate state '" ++ state ++ "'")
  | undeclaredInitial (state : String) : Says (.undeclaredInitial state)
    ("invalid machine definition: initial state '" ++ state ++ "' not in states list")
  | undeclaredSource (state : String) : Says (.undeclaredSource state)
    ("invalid machine definition: transition source '" ++ state ++ "' not in states list")
  | undeclaredTarget (target event source : String) : Says (.undeclaredTarget target event source)
    ("invalid machine definition: transition target '" ++ target ++ "' for '" ++ event ++
      "' in '" ++ source ++ "' not in states list")

theorem DefinitionFault.says_message (fault : DefinitionFault) : fault.Says fault.message := by
  cases fault with
  | noStates => exact .noStates
  | duplicateState state => exact .duplicateState state
  | undeclaredInitial state => exact .undeclaredInitial state
  | undeclaredSource state => exact .undeclaredSource state
  | undeclaredTarget target event source => exact .undeclaredTarget target event source

/-- A fault has one message. -/
theorem DefinitionFault.Says.eq_message {fault : DefinitionFault} {text : String}
    (h : fault.Says text) : text = fault.message := by
  cases h <;> rfl

/-! ### Configurations -/

namespace Config

variable {name : String} {d : Definition} {c : Config}

/-- What a configuration made of a definition under a name holds and answers. -/
structure Carries (c : Config) (name : String) (d : Definition) : Prop where
  name_eq : c.name = name
  definition_eq : c.definition = d
  checksum_eq : c.checksum = d.checksum
  hasState : ∀ state, c.hasState state = true ↔ state ∈ d.states
  target : ∀ state event next, c.target? state event = some next ↔
    ∃ row, d.transitions.get? state = some row ∧ row.get? event = some next
  /-- What leads somewhere is declared, and so is where it leads to. -/
  declared : ∀ state event next, c.target? state event = some next →
    c.hasState state = true ∧ c.hasState next = true
  events : ∀ state, (c.eventsFrom state).Pairwise (· < ·) ∧
    ∀ event, event ∈ c.eventsFrom state ↔ ∃ next, c.target? state event = some next
  source : ∀ state, c.eventsFrom state ≠ [] → c.hasState state = true

theorem Carries.eq_ofClosed (h : c.Carries name d) : c = ofClosed name d := by
  obtain ⟨cname, definition, checksum⟩ := c
  obtain rfl : cname = name := h.name_eq
  obtain rfl : definition = d := h.definition_eq
  obtain rfl : checksum = definition.checksum := h.checksum_eq
  rfl

theorem mem_eventsFrom_iff {state event : String} :
    event ∈ c.eventsFrom state ↔ ∃ next, c.target? state event = some next := by
  unfold eventsFrom target? Definition.eventsFrom Definition.target?
  cases c.definition.transitions.get? state with
  | none => simp
  | some row => exact Table.mem_keys_iff

theorem pairwise_eventsFrom (c : Config) (state : String) :
    (c.eventsFrom state).Pairwise (· < ·) := by
  unfold eventsFrom Definition.eventsFrom
  cases c.definition.transitions.get? state with
  | none => exact List.Pairwise.nil
  | some row => exact row.ordered

theorem carries_ofClosed (name : String) (h : d.Closed) : (ofClosed name d).Carries name d := by
  have htarget (state event next : String) :
      (ofClosed name d).target? state event = some next ↔
        ∃ row, d.transitions.get? state = some row ∧ row.get? event = some next :=
    Option.bind_eq_some_iff
  have hdeclared (state event next : String)
      (hnext : (ofClosed name d).target? state event = some next) :
      (ofClosed name d).hasState state = true ∧ (ofClosed name d).hasState next = true := by
    obtain ⟨row, hrow, -⟩ := (htarget state event next).mp hnext
    exact ⟨Definition.hasState_iff.mpr (h.source state row hrow),
      Definition.hasState_iff.mpr (h.target state event next hnext)⟩
  refine ⟨rfl, rfl, rfl, fun _ ↦ Definition.hasState_iff, htarget, hdeclared,
    fun state ↦ ⟨pairwise_eventsFrom _ state, fun _ ↦ mem_eventsFrom_iff⟩, fun state hevents ↦ ?_⟩
  obtain ⟨event, hevent⟩ := List.exists_mem_of_ne_nil _ hevents
  obtain ⟨next, hnext⟩ := mem_eventsFrom_iff.mp hevent
  exact (hdeclared state event next hnext).1

theorem ofDefinition_eq_error_iff {fault : DefinitionFault} :
    ofDefinition name d = .error fault ↔ d.Breaks fault := by
  rw [← Definition.fault?_eq_some_iff, ofDefinition]
  cases d.fault? with
  | none => simp
  | some other => simp

/-- The message of a refusal is the one that goes with the first broken rule. -/
theorem message_of_refused_iff (name : String) (d : Definition) (text : String) :
    (∃ fault, ofDefinition name d = .error fault ∧ fault.message = text) ↔
      ∃ fault, d.Breaks fault ∧ fault.Says text := by
  refine exists_congr fun fault ↦ ?_
  rw [ofDefinition_eq_error_iff]
  refine and_congr_right fun _ ↦ ⟨?_, fun hsays ↦ hsays.eq_message.symm⟩
  rintro rfl
  exact fault.says_message

/-- A configuration is made of the closed definitions, which it carries as they are, and every
other definition is refused with the first rule that it breaks. -/
theorem ofDefinition_decides (name : String) (d : Definition) :
    (∀ c, ofDefinition name d = .ok c ↔ (d.states ≠ [] ∧ d.Closed) ∧ c.Carries name d) ∧
      ∀ fault, ofDefinition name d = .error fault ↔ d.Breaks fault := by
  refine ⟨fun c ↦ ?_, fun fault ↦ ofDefinition_eq_error_iff⟩
  rw [ofDefinition_eq_ok_iff]
  constructor
  · rintro ⟨hclosed, rfl⟩
    exact ⟨⟨List.ne_nil_of_mem hclosed.initial, hclosed⟩, carries_ofClosed name hclosed⟩
  · rintro ⟨⟨-, hclosed⟩, hcarries⟩
    exact ⟨hclosed, hcarries.eq_ofClosed⟩

/-- Of two repeated states the one whose repetition comes first is reported, and neither what is
undeclared. -/
example : ofDefinition "door" ⟨"ajar", ["open", "shut", "shut", "open"],
    .ofList [("open", .ofList [("push", "gone")])]⟩ = .error (.duplicateState "shut") := by
  decide

end Config

end AgentMarkup.Machine
