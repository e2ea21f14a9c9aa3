import AgentMarkup.CommandLine.Session
import AgentMarkup.Proofs.Machine.Course
import AgentMarkup.Proofs.Text.Phrase

/-!
Sessions as runs of a machine. Every line that can be read asks for calls, at most one
(`Line`): a reset, or the event that is its first word, and none if it is blank, a question, or an
event with a payload that is no JSON text. A session asks for the calls of its lines up to the first
that ends it (`Asks`), and these calls alone determine the machine at its end (`machine_play`).
Main statement: `session_runs_machine`.
-/

set_option autoImplicit false
set_option relaxedAutoImplicit false

namespace AgentMarkup.CommandLine.Session

open Text (Phrase InAnyCase)

/-! ### What a line asks for -/

/-- The words that end a session. -/
def quits : List String := ["quit", "exit", "q"]

/-- The words that ask for something to be shown. -/
def questions : List String := ["help", "?", "state", "history", "events"]

def resets : List String := ["reset"]

def IsAmong (word : String) (commands : List String) : Prop :=
  ∃ command ∈ commands, InAnyCase word command

/-- Whether a word is the name of an event, and asks for nothing else. -/
def IsEvent (word : String) : Prop :=
  ¬ IsAmong word (quits ++ questions ++ resets)

/-- Whether a text is that of a payload; without a text the payload is null. -/
def Carries (text : String) (payload : Json) : Prop :=
  (text = "" ∧ payload = .null) ∨ (text ≠ "" ∧ Json.read text = .ok payload)

/-- What a line asks of a machine. -/
inductive Line : String → List (Call String) → Prop
  | blank {line : String} (h : ∀ c ∈ line.toList, Text.isBlank c = true) : Line line []
  | question {line word rest : String} (h : Phrase line word rest)
    (hword : IsAmong word questions) : Line line []
  | reset {line word rest : String} (h : Phrase line word rest) (hword : IsAmong word resets) :
    Line line [.reset]
  | event {line word rest : String} {payload : Json} (h : Phrase line word rest)
    (hword : IsEvent word) (hpayload : Carries rest payload) : Line line [.fire word payload]
  | unreadable {line word rest : String} (h : Phrase line word rest) (hword : IsEvent word)
    (hpayload : ¬ ∃ payload, Carries rest payload) : Line line []

/-- Whether a line ends the session. -/
def Quits (line : String) : Prop :=
  ∃ word rest, Phrase line word rest ∧ IsAmong word quits

/-- What the lines of a session ask of a machine, up to the first that ends it. -/
inductive Asks : List (Except ReadFailure String) → List (Call String) → Prop
  | ended : Asks [] []
  | broken {failure : ReadFailure} {rest : List (Except ReadFailure String)} :
    Asks (.error failure :: rest) []
  | quit {line : String} {rest : List (Except ReadFailure String)} (h : Quits line) :
    Asks (.ok line :: rest) []
  | line {line : String} {rest : List (Except ReadFailure String)} {calls more : List (Call String)}
    (h : Line line calls) (hrest : Asks rest more) : Asks (.ok line :: rest) (calls ++ more)

/-- The error that a line yields. -/
inductive Fails (m : Machine) (line : String) : String → Prop
  | unreadable {word rest : String} {fault : ReadFault} (h : Phrase line word rest)
    (hword : IsEvent word) (hrest : rest ≠ "") (hread : Json.read rest = .error fault) :
    Fails m line fault.message
  | refused {word rest : String} {payload : Json} (h : Phrase line word rest)
    (hword : IsEvent word) (hpayload : Carries rest payload)
    (hrefused : m.config.target? m.state word = none) :
    Fails m line (Refusal.message ⟨m.state, word⟩)

/-! ### How a line is read -/

variable {m : Machine} {line word rest : String}

theorem isAmong_iff {commands : List String}
    (h : ∀ command ∈ commands, command.toList.any Char.isUpper = false) :
    IsAmong word commands ↔ Text.lowercase word ∈ commands := by
  replace h : ∀ command ∈ commands, ∀ c ∈ command.toList, c.isUpper = false :=
    fun command hcommand c hc ↦
      Bool.eq_false_iff.mpr (List.any_eq_false.mp (h command hcommand) c hc)
  constructor
  · rintro ⟨command, hcommand, hword⟩
    rwa [(Text.lowercase_eq_iff (h command hcommand)).mpr hword]
  · intro hword
    exact ⟨_, hword, (Text.lowercase_eq_iff (h _ hword)).mp rfl⟩

theorem isAmong_quits_iff : IsAmong word quits ↔ Text.lowercase word ∈ quits :=
  isAmong_iff (by decide)

theorem isAmong_questions_iff : IsAmong word questions ↔ Text.lowercase word ∈ questions :=
  isAmong_iff (by decide)

theorem isAmong_resets_iff : IsAmong word resets ↔ Text.lowercase word ∈ resets :=
  isAmong_iff (by decide)

theorem isEvent_iff : IsEvent word ↔ Text.lowercase word ∉ quits ++ questions ++ resets :=
  not_congr (isAmong_iff (by decide))

theorem carries_iff {payload : Json} : Carries rest payload ↔ readPayload rest = .ok payload := by
  unfold Carries readPayload
  split_ifs with h
  · simp [h, eq_comm]
  · simp [h]

/-- The calls that a request makes. -/
def Request.calls : Request → List (Call String)
  | .reset => [.reset]
  | .fire event (.ok payload) => [.fire event payload]
  | .fire _ (.error _) | .nothing | .help | .quit | .state | .history | .events => []

theorem ofLine_of_blank (h : ∀ c ∈ line.toList, Text.isBlank c = true) :
    Request.ofLine line = .nothing := by
  have htrim : Text.trim line = "" :=
    Text.isBlankText_eq_true_iff.mp (List.all_eq_true.mpr h)
  rw [Request.ofLine, htrim]
  rfl

theorem ofLine_of_phrase (h : Phrase line word rest) :
    Request.ofLine line = requestOf word rest := by
  obtain ⟨hne, tail, hsplit, rfl⟩ := h.splitAtBlank_trim
  simp only [Request.ofLine, if_neg hne, hsplit]

theorem requestOf_of_quits (h : IsAmong word quits) : requestOf word rest = .quit := by
  have hword := isAmong_quits_iff.mp h
  simp only [quits, List.mem_cons, List.not_mem_nil, or_false] at hword
  rcases hword with hword | hword | hword <;>
    · rw [requestOf, hword]
      rfl

theorem requestOf_of_questions (h : IsAmong word questions) :
    requestOf word rest ≠ .quit ∧ (requestOf word rest).calls = [] := by
  have hword := isAmong_questions_iff.mp h
  simp only [questions, List.mem_cons, List.not_mem_nil, or_false] at hword
  rcases hword with hword | hword | hword | hword | hword <;>
    · rw [requestOf, hword]
      exact ⟨Request.noConfusion, rfl⟩

theorem requestOf_of_resets (h : IsAmong word resets) : requestOf word rest = .reset := by
  have hword := isAmong_resets_iff.mp h
  rw [requestOf, List.mem_singleton.mp hword]
  rfl

theorem requestOf_of_isEvent (h : IsEvent word) :
    requestOf word rest = .fire word (readPayload rest) := by
  have hword := isEvent_iff.mp h
  simp only [quits, questions, resets, List.mem_append, List.mem_cons, List.not_mem_nil, or_false,
    not_or] at hword
  unfold requestOf
  split <;> simp_all

theorem ofLine_of_quits (h : Quits line) : Request.ofLine line = .quit := by
  obtain ⟨word, rest, h, hword⟩ := h
  rw [ofLine_of_phrase h, requestOf_of_quits hword]

theorem ofLine_of_line {calls : List (Call String)} (h : Line line calls) :
    Request.ofLine line ≠ .quit ∧ (Request.ofLine line).calls = calls := by
  cases h with
  | blank h =>
    rw [ofLine_of_blank h]
    exact ⟨Request.noConfusion, rfl⟩
  | question h hword =>
    rw [ofLine_of_phrase h]
    exact requestOf_of_questions hword
  | reset h hword =>
    rw [ofLine_of_phrase h, requestOf_of_resets hword]
    exact ⟨Request.noConfusion, rfl⟩
  | event h hword hpayload =>
    rw [ofLine_of_phrase h, requestOf_of_isEvent hword, carries_iff.mp hpayload]
    exact ⟨Request.noConfusion, rfl⟩
  | @unreadable word rest h hword hpayload =>
    rw [ofLine_of_phrase h, requestOf_of_isEvent hword]
    cases hread : readPayload rest with
    | ok payload => exact absurd ⟨payload, carries_iff.mpr hread⟩ hpayload
    | error fault => exact ⟨Request.noConfusion, rfl⟩

/-- A line ends the session or asks for calls. -/
theorem quits_or_line (line : String) : Quits line ∨ ∃ calls, Line line calls := by
  by_cases hblank : ∀ c ∈ line.toList, Text.isBlank c = true
  · exact Or.inr ⟨_, .blank hblank⟩
  obtain ⟨word, rest, h⟩ := Text.exists_phrase hblank
  by_cases hquits : IsAmong word quits
  · exact Or.inl ⟨word, rest, h, hquits⟩
  by_cases hquestions : IsAmong word questions
  · exact Or.inr ⟨_, .question h hquestions⟩
  by_cases hresets : IsAmong word resets
  · exact Or.inr ⟨_, .reset h hresets⟩
  have hword : IsEvent word := by
    rw [isEvent_iff, List.mem_append, List.mem_append, ← isAmong_quits_iff,
      ← isAmong_questions_iff, ← isAmong_resets_iff]
    exact fun hamong ↦ hamong.elim (fun hfirst ↦ hfirst.elim hquits hquestions) hresets
  by_cases hpayload : ∃ payload, Carries rest payload
  · obtain ⟨payload, hpayload⟩ := hpayload
    exact Or.inr ⟨_, .event h hword hpayload⟩
  · exact Or.inr ⟨_, .unreadable h hword hpayload⟩

/-! ### What a session asks for -/

variable {lines : List (Except ReadFailure String)} {calls others : List (Call String)}

theorem exists_asks (lines : List (Except ReadFailure String)) : ∃ calls, Asks lines calls := by
  induction lines with
  | nil => exact ⟨[], .ended⟩
  | cons input rest ih =>
    cases input with
    | error failure => exact ⟨[], .broken⟩
    | ok line =>
      rcases quits_or_line line with hquits | ⟨calls, hline⟩
      · exact ⟨[], .quit hquits⟩
      · obtain ⟨more, hrest⟩ := ih
        exact ⟨calls ++ more, .line hline hrest⟩

theorem Asks.unique (h : Asks lines calls) (h' : Asks lines others) : others = calls := by
  induction h generalizing others with
  | ended =>
    cases h'
    rfl
  | broken =>
    cases h'
    rfl
  | quit hquits =>
    cases h' with
    | quit => rfl
    | line hline => exact absurd (ofLine_of_quits hquits) (ofLine_of_line hline).1
  | line hline _ ih =>
    cases h' with
    | quit hquits => exact absurd (ofLine_of_quits hquits) (ofLine_of_line hline).1
    | line hline' hrest => rw [ih hrest, ← (ofLine_of_line hline).2, (ofLine_of_line hline').2]

/-! ### What a session does -/

theorem ended_answer (m : Machine) (request : Request) :
    (answer m request).ended = true ↔ request = .quit := by
  cases request with
  | fire event payload =>
    rw [answer]
    cases payload with
    | error fault => simp [fireReply, say]
    | ok payload => cases hfire : m.fire event payload <;> simp [fireReply, say, hfire]
  | _ => simp [answer, say, resetReply]

/-- A request does to the machine what its calls do. -/
theorem machine_answer (m : Machine) (request : Request) :
    (answer m request).machine = afterCalls Machine.perform m request.calls := by
  cases request with
  | fire event payload =>
    rw [answer]
    cases payload with
    | error fault => rfl
    | ok payload =>
      cases hfire : m.fire event payload <;>
        simp [fireReply, say, Request.calls, afterCalls, Machine.perform, hfire]
  | _ => rfl

theorem play_of_ended (h : (respond m line).ended = true) :
    (play m (.ok line :: lines)).2.1 = (respond m line).machine := by
  simp only [play, h, if_true]

/-- After a line that does not end it, the session goes on with the machine that the line left. -/
theorem play_of_not_ended (h : (respond m line).ended = false) :
    play m (.ok line :: lines) =
      let more := play (respond m line).machine lines
      ((respond m line).printed ++ more.1, more.2.1, (respond m line).log ++ more.2.2) := by
  simp only [play, h]
  rfl

/-- The machine after a session is the one after the calls that its lines ask for. -/
theorem machine_play (h : Asks lines calls) (m : Machine) :
    (play m lines).2.1 = afterCalls Machine.perform m calls := by
  induction h generalizing m with
  | ended => rfl
  | broken => rfl
  | quit hquits =>
    have hquit := ofLine_of_quits hquits
    rw [play_of_ended ((ended_answer m _).mpr hquit), respond, hquit]
    rfl
  | @line line rest calls more hline hrest ih =>
    obtain ⟨hquit, rfl⟩ := ofLine_of_line hline
    have hgoes : (respond m line).ended = false :=
      Bool.eq_false_iff.mpr (mt (ended_answer m _).mp hquit)
    rw [play_of_not_ended hgoes, respond]
    simp only [ih, machine_answer, afterCalls, List.foldl_append]

/-- An event changes the machine exactly if it carries a payload and is accepted. -/
theorem machine_respond_ne_iff (m : Machine) (h : Phrase line word rest) (hword : IsEvent word) :
    (respond m line).machine ≠ m ↔
      (∃ payload, Carries rest payload) ∧
        ∃ target, m.config.target? m.state word = some target := by
  simp only [carries_iff]
  rw [respond, ofLine_of_phrase h, requestOf_of_isEvent hword, answer]
  cases readPayload rest with
  | error fault => simp [fireReply, say]
  | ok payload =>
    cases htarget : m.config.target? m.state word with
    | none => simp [fireReply, say, Machine.fire, htarget]
    | some target =>
      have hlonger : m.history ++ [m.state] ≠ m.history := by simp
      have hne : { m with state := target, history := m.history ++ [m.state] } ≠ m :=
        fun heq ↦ hlonger (congrArg Machine.history heq)
      simpa [fireReply, Machine.fire, htarget] using hne

/-- A line that yields an error has it printed and does nothing else. -/
theorem respond_of_fails {message : String} (h : Fails m line message) :
    respond m line = ⟨"Error: " ++ message ++ "\n\n", m, false, []⟩ := by
  cases h with
  | @unreadable word rest fault h hword hrest hread =>
    have hpayload : readPayload rest = .error fault := by rw [readPayload, if_neg hrest, hread]
    rw [respond, ofLine_of_phrase h, requestOf_of_isEvent hword, hpayload]
    rfl
  | @refused word rest payload h hword hpayload hrefused =>
    rw [respond, ofLine_of_phrase h, requestOf_of_isEvent hword, carries_iff.mp hpayload]
    simp [answer, fireReply, say, Machine.fire, hrefused]

/-- The errors are those of the events that do not change the machine. -/
theorem exists_fails_iff (m : Machine) (line : String) :
    (∃ message, Fails m line message) ↔
      ∃ word rest, Phrase line word rest ∧ IsEvent word ∧ (respond m line).machine = m := by
  constructor
  · rintro ⟨message, hfails⟩
    have hmachine := congrArg Reply.machine (respond_of_fails hfails)
    cases hfails with
    | unreadable h hword => exact ⟨_, _, h, hword, hmachine⟩
    | refused h hword => exact ⟨_, _, h, hword, hmachine⟩
  · rintro ⟨word, rest, h, hword, hmachine⟩
    have hkept := mt (machine_respond_ne_iff m h hword).mpr (not_not_intro hmachine)
    cases hread : readPayload rest with
    | error fault =>
      have hrest : rest ≠ "" := by
        rintro rfl
        exact absurd hread (by simp [readPayload])
      rw [readPayload, if_neg hrest] at hread
      exact ⟨_, .unreadable h hword hrest hread⟩
    | ok payload =>
      have hpayload : Carries rest payload := carries_iff.mpr hread
      refine ⟨_, .refused h hword hpayload ?_⟩
      by_contra haccepted
      exact hkept ⟨⟨payload, hpayload⟩, Option.ne_none_iff_exists'.mp haccepted⟩

/-- What a session with these lines does to a machine. -/
structure RunsMachine (m : Machine) (lines : List (Except ReadFailure String)) : Prop where
  /-- The lines ask for calls, one after another up to the first line that ends the session, and the
  machine at the end is the one after these calls. -/
  calls : ∃ calls, Asks lines calls ∧ (∀ others, Asks lines others → others = calls) ∧
    (play m lines).2.1 = afterCalls Machine.perform m calls
  /-- An event changes the machine if it has no payload, or one that can be read, and is accepted;
  otherwise it does not. -/
  changes : ∀ line word rest, Phrase line word rest → IsEvent word →
    ((respond m line).machine ≠ m ↔ (∃ payload, Carries rest payload) ∧
      ∃ target, m.config.target? m.state word = some target)
  /-- An event that does not change the machine yields an error, and nothing else does. -/
  fails : ∀ line, (∃ message, Fails m line message) ↔
    ∃ word rest, Phrase line word rest ∧ IsEvent word ∧ (respond m line).machine = m
  /-- After an error the session goes on with the machine as it was. -/
  goes_on : ∀ line message, Fails m line message →
    respond m line = ⟨"Error: " ++ message ++ "\n\n", m, false, []⟩ ∧
    play m (.ok line :: lines) =
      ("Error: " ++ message ++ "\n\n" ++ (play m lines).1, (play m lines).2)

theorem session_runs_machine (m : Machine) (lines : List (Except ReadFailure String)) :
    RunsMachine m lines where
  calls := by
    obtain ⟨calls, hcalls⟩ := exists_asks lines
    exact ⟨calls, hcalls, fun _ ↦ hcalls.unique, machine_play hcalls m⟩
  changes _ _ _ := machine_respond_ne_iff m
  fails := exists_fails_iff m
  goes_on line message hfails := by
    have hrespond := respond_of_fails hfails
    refine ⟨hrespond, ?_⟩
    rw [play_of_not_ended (by rw [hrespond]), hrespond]
    rfl

/-- Words are taken in any letter case where they are commands, and as they are where they are
events; blanks of any kind part them from a payload. -/
example :
    let m := Machine.start Lifecycle.stream.config
    let lines := ["  start\u2003", "Start", "chunk\t\x7b\"n\": 1\x7d", "chunk \x7b", "HISTORY",
      "\u3000", " Quit x", "reset"]
    let last := (play m (lines.map Except.ok)).2.1
    last.state = "generating" ∧ last.history = ["idle", "generating"] := by
  decide +kernel

end AgentMarkup.CommandLine.Session
