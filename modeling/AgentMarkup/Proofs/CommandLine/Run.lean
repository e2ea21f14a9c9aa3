import AgentMarkup.CommandLine.Report

/-!
What the command `run` reports. A walk is a row of transitions that the table has, each from where
the one before it led. Firing events one after another makes such a walk and makes it as long as
the events allow (`exhausts_fireAll`): what the table accepts of the events, one by one, is what
the walk has made of them (`Exhausts.acceptsAll_iff`). The report puts the walk into lines, so all
that it says is said of the walk. Main statement: `executeRun_reports_walk`.
-/

set_option autoImplicit false
set_option relaxedAutoImplicit false

namespace AgentMarkup

namespace Machine

/-- Transitions without payload along a table, one after another, from a state to a state. -/
inductive Walk (c : Config) : String → List Transition → String → Prop
  | stay {state : String} : Walk c state [] state
  | step {source target event last : String} {rest : List Transition}
    (h : c.target? source event = some target) (hrest : Walk c target rest last) :
    Walk c source (⟨source, target, event, .null⟩ :: rest) last

/-- Whether a table accepts events one after another, from a state on. -/
def Config.AcceptsAll (c : Config) : String → List String → Prop
  | _, [] => True
  | state, event :: rest =>
    ∃ target, c.target? state event = some target ∧ c.AcceptsAll target rest

/-- Whether a walk takes events from a state on as far as the table goes: it ends with the events,
or in a state that does not accept the next one. -/
structure Exhausts (c : Config) (state : String) (events : List String) (made : List Transition)
    (last : String) (rest : List String) : Prop where
  walk : Walk c state made last
  events_eq : events = made.map Transition.event ++ rest
  stops : ∀ event ∈ rest.head?, c.target? last event = none

variable {c : Config} {state last : String} {events rest : List String} {made : List Transition}

namespace Exhausts

theorem step {target event : String} (htarget : c.target? state event = some target)
    (h : Exhausts c target events made last rest) :
    Exhausts c state (event :: events) (⟨state, target, event, .null⟩ :: made) last rest :=
  ⟨.step htarget h.walk, congrArg (event :: ·) h.events_eq, h.stops⟩

/-- Of the events, exactly the beginnings that the walk has made something of are accepted. -/
theorem acceptsAll_iff (h : Exhausts c state events made last rest) {front : List String}
    (hfront : front <+: events) :
    c.AcceptsAll state front ↔ front <+: made.map Transition.event := by
  obtain ⟨hwalk, hevents, hstops⟩ := h
  induction hwalk generalizing events front with
  | stay =>
    cases front with
    | nil => simp [Config.AcceptsAll]
    | cons event front =>
      -- the first event is the one that the walk stops at
      rw [hevents, List.map_nil, List.nil_append] at hfront
      obtain ⟨back, rfl⟩ := hfront
      have hrefused := hstops event rfl
      simp [Config.AcceptsAll, hrefused]
  | @step source target event last made htarget hwalk ih =>
    rw [List.map_cons, List.cons_append] at hevents
    cases front with
    | nil => simp [Config.AcceptsAll]
    | cons first front =>
      rw [hevents, List.cons_prefix_cons] at hfront
      obtain ⟨rfl, hfront⟩ := hfront
      have hrest := ih hfront rfl hstops
      simp [Config.AcceptsAll, htarget, hrest]

theorem acceptsAll_events_iff (h : Exhausts c state events made last rest) :
    c.AcceptsAll state events ↔ rest = [] := by
  have hrest : made.map Transition.event ++ rest <+: made.map Transition.event ++ [] ↔
    rest <+: [] := List.prefix_append_right_inj _
  rw [List.append_nil, List.prefix_nil] at hrest
  rw [h.acceptsAll_iff List.prefix_rfl, ← hrest, ← h.events_eq]

end Exhausts

/-- Firing events takes them as far as the table goes. The history grows by the states that are
left, and what is refused is the first event that remains. -/
theorem exhausts_fireAll (m : Machine) (events : List String) : ∃ made last rest,
    Exhausts m.config m.state events made last rest ∧
      m.fireAll events = (made,
        { m with state := last, history := m.history ++ made.map Transition.source },
        rest.head?.map (⟨last, ·⟩)) := by
  induction events generalizing m with
  | nil => exact ⟨[], m.state, [], ⟨.stay, rfl, by simp⟩, by simp [fireAll]⟩
  | cons event events ih =>
    cases htarget : m.config.target? m.state event with
    | none =>
      refine ⟨[], m.state, event :: events, ⟨.stay, rfl, ?_⟩, by simp [fireAll, fire, htarget]⟩
      simpa using htarget
    | some target =>
      obtain ⟨made, last, rest, hexhausts, hmade⟩ :=
        ih { m with state := target, history := m.history ++ [m.state] }
      refine ⟨_, last, rest, hexhausts.step htarget, ?_⟩
      simp [fireAll, fire, htarget, hmade]

end Machine

namespace CommandLine

namespace Report

/-- How a run ends that has left these states and come to the last with these events to go. -/
def runEnd (left : List String) (last : String) : List String → String
  | [] => "History: " ++ String.intercalate " → " left
  | event :: _ =>
    "Error: invalid transition: cannot apply '" ++ event ++ "' in state '" ++ last ++ "'"

/-- The lines of a run through these transitions. -/
def runText (kind initial last : String) (made : List Transition) (rest : List String) : String :=
  kind ++ " " ++ initial ++ "\n" ++
    String.join (made.map fun t ↦
      "  " ++ t.event ++ " " ++ t.source ++ " → " ++ t.target ++ "\n") ++
    runEnd (made.map Transition.source) last rest

theorem begun_eq (kind initial : String) (made : List Transition) :
    lines (s!"{kind} {initial}" :: made.map transitionLine) = kind ++ " " ++ initial ++ "\n" ++
      String.join (made.map fun t ↦
        "  " ++ t.event ++ " " ++ t.source ++ " → " ++ t.target ++ "\n") := by
  rw [lines, List.map_cons, List.map_map, String.join_cons]
  rfl

theorem error_message_eq (refusal : Refusal) :
    "Error: " ++ refusal.message = "Error: invalid transition: cannot apply '" ++ refusal.event ++
      "' in state '" ++ refusal.state ++ "'" := by
  have hmessage : refusal.message = "invalid transition: cannot apply '" ++ refusal.event ++
    "' in state '" ++ refusal.state ++ "'" := rfl
  have hfront : "Error: " ++ "invalid transition: cannot apply '" =
    "Error: invalid transition: cannot apply '" := by decide
  rw [hmessage, ← hfront]
  simp only [String.append_assoc]

theorem ofRun_eq {kind last : String} {c : Machine.Config} {events rest : List String}
    {made : List Transition} (h : (Machine.start c).fireAll events =
      (made, ⟨c, last, made.map Transition.source⟩, rest.head?.map (⟨last, ·⟩))) :
    ofRun kind c events = ⟨runText kind c.initial last made rest, rest.isEmpty⟩ := by
  have hbegun := begun_eq kind (Machine.start c).state made
  cases rest with
  | nil =>
    simp only [ofRun, h, List.head?_nil, Option.map_none]
    rw [hbegun, String.append_assoc]
    rfl
  | cons event rest =>
    simp only [ofRun, h, List.head?_cons, Option.map_some]
    rw [hbegun, String.append_assoc, error_message_eq]
    rfl

end Report

namespace Command

open Machine

/-- The command `run` reports the walk of a fresh machine of its kind. The report is good exactly
if all the events are accepted, one after another. Its lines are the transitions for the longest
beginning of the events that is accepted, each from where the one before it led; then come the
states that were left, or the refusal of the first event that is not accepted. There is no report
on a kind that is not known. -/
theorem executeRun_reports_walk (kind : String) (events : List String) :
    (builtins.get? kind = none → ∃ failure, (executeRun kind events).outcome = .error failure ∧
      failure.message = "unknown state machine: " ++ kind) ∧
    ∀ c, builtins.get? kind = some c → ∃ report made last rest,
      (executeRun kind events).outcome = .ok report ∧
      Exhausts c c.initial events made last rest ∧
      (∀ front, front <+: events →
        (c.AcceptsAll c.initial front ↔ front <+: made.map Transition.event)) ∧
      (report.ok = true ↔ c.AcceptsAll c.initial events) ∧
      report.text = Report.runText kind c.initial last made rest := by
  constructor
  · intro hunknown
    refine ⟨.unknownMachine ⟨kind⟩, ?_, rfl⟩
    rw [executeRun, builtin?, hunknown]
  · intro c hknown
    obtain ⟨made, last, rest, hexhausts, hmade⟩ := exhausts_fireAll (Machine.start c) events
    have hreport : (executeRun kind events).outcome =
        .ok ⟨Report.runText kind c.initial last made rest, rest.isEmpty⟩ := by
      rw [executeRun, builtin?, hknown, ← Report.ofRun_eq hmade]
    have hgood : rest.isEmpty = true ↔ c.AcceptsAll c.initial events :=
      List.isEmpty_iff.trans hexhausts.acceptsAll_events_iff.symm
    exact ⟨_, made, last, rest, hreport, hexhausts, fun _ ↦ hexhausts.acceptsAll_iff, hgood, rfl⟩

/-- A stream that has begun does not begin again; nothing is said of the event after that. -/
theorem executeRun_reports_walk_stream :
    let c := Lifecycle.stream.config
    let events := ["start", "chunk", "start", "complete"]
    let text := "stream idle\n  start idle → generating\n  chunk generating → generating\n" ++
      "Error: invalid transition: cannot apply 'start' in state 'generating'"
    builtins.get? "stream" = some c ∧ (executeRun "stream" events).outcome = .ok ⟨text, false⟩ ∧
      ¬ c.AcceptsAll c.initial events ∧
      (∃ made last rest, Exhausts c c.initial events made last rest ∧
        text = Report.runText "stream" c.initial last made rest) ∧
      builtins.get? "sonar" = none ∧
      ∃ failure, (executeRun "sonar" events).outcome = .error failure ∧
        failure.message = "unknown state machine: sonar" := by
  intro c events text
  have hknown : builtins.get? "stream" = some c := rfl
  have hunknown : builtins.get? "sonar" = none := rfl
  have hrun : (executeRun "stream" events).outcome = .ok ⟨text, false⟩ :=
    congrArg Except.ok (by decide +kernel)
  obtain ⟨report, made, last, rest, hreport, hexhausts, -, hgood, htext⟩ :=
    (executeRun_reports_walk "stream" events).2 c hknown
  obtain rfl : (⟨text, false⟩ : Report) = report := Except.ok.inj (hrun.symm.trans hreport)
  exact ⟨hknown, hrun, mt hgood.mpr (by decide), ⟨made, last, rest, hexhausts, htext⟩, hunknown,
    (executeRun_reports_walk "sonar" events).1 hunknown⟩

end Command

end CommandLine

end AgentMarkup
