import AgentMarkup.CommandLine.Report
import AgentMarkup.Json.Reader

/-!
Interactive sessions with a machine. The first word of a line decides what it asks for,
in any letter case; a word that asks for nothing else is an event, in the case in which
it was written, and what follows it is the payload. Only a reset and an event that is
accepted change the machine.
-/

set_option autoImplicit false
set_option relaxedAutoImplicit false

namespace AgentMarkup.CommandLine

namespace Session

/-- What a line asks for. -/
inductive Request where
  | nothing
  | help
  | quit
  | state
  | history
  | events
  | reset
  | fire (event : String) (payload : Except ReadFault Json)

/-- The payload after an event; an event may stand alone. -/
def readPayload (text : String) : Except ReadFault Json :=
  if text = "" then .ok .null else Json.read text

def requestOf (event : String) (rest : String) : Request :=
  match Text.lowercase event with
  | "help" | "?" => .help
  | "quit" | "exit" | "q" => .quit
  | "state" => .state
  | "history" => .history
  | "events" => .events
  | "reset" => .reset
  | _ => .fire event (readPayload rest)

def Request.ofLine (line : String) : Request :=
  let line := Text.trim line
  if line = "" then .nothing
  else
    let (word, rest) := Text.splitAtBlank line
    requestOf word (rest.elim "" Text.trim)

def helpText : String := "
Available commands:
  help                    Show this help
  state                   Show the current state
  history                 Show previous states
  events                  List events accepted in the current state
  reset                   Return to the initial state

  <event> [payload_json]  Fire an event, e.g. `start` or `chunk \x7b\"text\":\"hi\"\x7d`

  quit, exit              Exit the REPL
"

/-- What a line brings about: the text printed, the machine after it, whether the
session is over, and what was reported. -/
structure Reply where
  printed : String
  machine : Machine
  ended : Bool
  log : List LogEntry

/-- A paragraph, set off by an empty line. -/
def say (m : Machine) (text : String) : Reply :=
  ⟨text ++ "\n\n", m, false, []⟩

def historyText (m : Machine) : String :=
  if m.history.isEmpty then "No history" else String.intercalate " → " m.history

def eventsText (m : Machine) : String :=
  if m.available.isEmpty then s!"No events accepted in '{m.state}'"
  else String.intercalate ", " m.available

def fireReply (m : Machine) (event : String) : Except ReadFault Json → Reply
  | .error fault => say m ("Error: " ++ fault.message)
  | .ok payload =>
    match m.fire event payload with
    | .error refusal => say m ("Error: " ++ refusal.message)
    | .ok (t, next) => ⟨s!"  {t.source} → {t.target}\n", next, false, [m.fireLog t]⟩

def resetReply (m : Machine) : Reply :=
  let (t, next) := m.reset
  ⟨s!"  {t.source} → {t.target} (reset)\n", next, false, [m.resetLog]⟩

def answer (m : Machine) : Request → Reply
  | .nothing => ⟨"", m, false, []⟩
  | .help => say m helpText
  | .quit => ⟨"", m, true, []⟩
  | .state => say m m.state
  | .history => say m (historyText m)
  | .events => say m (eventsText m)
  | .reset => resetReply m
  | .fire event payload => fireReply m event payload

/-- Answers a line. -/
def respond (m : Machine) (line : String) : Reply :=
  answer m (.ofLine line)

def greeting (kind : String) (m : Machine) : String :=
  s!"glang {kind} machine\nState: {m.state}\nType 'help' for available commands.\n\n"

/-- What is printed when the input ends. -/
def farewell : String := "^D\n"

/-- What is printed when a line cannot be read, which ends the session. -/
def brokenLine (failure : ReadFailure) : String :=
  s!"Error: Io({failure.inspect})\n"

/-- A session over lines that are known in advance: the text printed, the machine at the
end, and what was reported. -/
def play (m : Machine) : List (Except ReadFailure String) → String × Machine × List LogEntry
  | [] => (farewell, m, [])
  | .error failure :: _ => (brokenLine failure, m, [])
  | .ok line :: rest =>
    let reply := respond m line
    if reply.ended then (reply.printed, reply.machine, reply.log)
    else
      let (printed, last, log) := play reply.machine rest
      (reply.printed ++ printed, last, reply.log ++ log)

/-- The whole of a session with a fresh machine of a kind. -/
def transcript (kind : String) (lines : List (Except ReadFailure String)) :
    Except UnknownMachine (String × Machine × List LogEntry) := do
  let fresh := Machine.start (← Machine.builtin? kind)
  let (printed, last, log) := play fresh lines
  return (greeting kind fresh ++ printed, last, log)

end Session

end AgentMarkup.CommandLine
