import AgentMarkup.CommandLine.Arguments
import AgentMarkup.Json.Printer
import AgentMarkup.Lifecycle.Builtin
import AgentMarkup.Machine.Basic

/-!
What the commands that run to their end have to say. A report is a text and whether it
is good news; a command that cannot be carried out gives a failure in its place.
-/

set_option autoImplicit false
set_option relaxedAutoImplicit false

namespace AgentMarkup.CommandLine

structure Report where
  text : String
  ok : Bool
deriving DecidableEq

/-- Why a command could not be carried out. -/
inductive Failure where
  | unknownMachine (fault : UnknownMachine)
  | unreadable (failure : ReadFailure)
deriving DecidableEq

namespace Failure

def message : Failure → String
  | .unknownMachine fault => fault.message
  | .unreadable failure => failure.message

def inspect : Failure → String
  | .unknownMachine fault => fault.inspect
  | .unreadable failure => failure.inspect

end Failure

/-- What a command comes to, and what was reported on the way. -/
structure Execution where
  outcome : Except Failure Report
  log : List LogEntry

namespace Report

def lines (ls : List String) : String :=
  String.join (ls.map (· ++ "\n"))

/-- The problems of a document under its name. -/
def diagnostics (name : String) (errors : List Diagnostic) : String :=
  lines (s!"error {name}" :: errors.map fun d ↦ "  " ++ d.display)

def ofParse (options : Parser.Options) (registry : Registry) (name source : String) : Report :=
  match (Parser.parse options registry source).result with
  | .ok tree => ⟨tree.toJson.pretty, true⟩
  | .error errors => ⟨diagnostics name errors, false⟩

/-- One line for a good document, the problems of a bad one. -/
def checked (options : Parser.Options) (registry : Registry) (name source : String) : Report :=
  let outcome := Parser.parse options registry source
  if outcome.isOk then ⟨lines [s!"ok {name}"], true⟩
  else ⟨diagnostics name outcome.errors, false⟩

def ofChecks (options : Parser.Options) (registry : Registry)
    (sources : List (String × String)) : Report :=
  let reports := sources.map fun source ↦ checked options registry source.1 source.2
  ⟨Text.trimEnd (String.join (reports.map Report.text)), reports.all Report.ok⟩

def attributeLine (name : String) (spec : AttributeSpec) : String :=
  s!"  {name}: {spec.type.name}" ++ (if spec.required then " (required)" else "") ++
    (spec.default.elim "" fun value ↦ " = " ++ value.compact)

def schemaLines (s : Schema) : List String :=
  s.attributes.entries.map (fun entry ↦ attributeLine entry.1 entry.2) ++
    if s.states.isEmpty then [] else ["  states: " ++ String.intercalate ", " s.states]

def ofPrimitives (registry : Registry) : Report :=
  let listing (entry : String × Schema) : List String :=
    let source := (registry.sourceOf? entry.1).elim "" SchemaSource.display
    s!"{entry.1} [{source}]" :: schemaLines entry.2
  ⟨Text.trimEnd (lines (registry.primitives.entries.flatMap listing)), true⟩

def stateLine (c : Machine.Config) (state : String) : String :=
  let arrows := (c.eventsFrom state).filterMap fun event ↦
    (c.target? state event).map fun target ↦ s!"{event} → {target}"
  if (c.eventsFrom state).isEmpty then "  " ++ state
  else s!"  {state}: " ++ String.intercalate ", " arrows

def ofMachines : Report :=
  let listing (entry : String × Machine.Config) : List String :=
    s!"{entry.1} (initial: {entry.2.initial}, checksum: {entry.2.checksum})" ::
      entry.2.states.map (stateLine entry.2)
  ⟨Text.trimEnd (lines (Machine.builtins.entries.flatMap listing)), true⟩

def transitionLine (t : Transition) : String :=
  s!"  {t.event} {t.source} → {t.target}"

/-- The run of a fresh machine up to its end or to the first event that is refused. -/
def ofRun (kind : String) (config : Machine.Config) (events : List String) : Report :=
  let fresh := Machine.start config
  let (made, last, refusal) := fresh.fireAll events
  let begun := lines (s!"{kind} {fresh.state}" :: made.map transitionLine)
  match refusal with
  | some refusal => ⟨begun ++ "Error: " ++ refusal.message, false⟩
  | none => ⟨begun ++ "History: " ++ String.intercalate " → " last.history, true⟩

def runLog (config : Machine.Config) (events : List String) : List LogEntry :=
  let fresh := Machine.start config
  (fresh.fireAll events).1.map fresh.fireLog

end Report

namespace Command

variable {m : Type → Type} [Monad m]

/-- The text of a document; a hyphen names the standard input. -/
def readSource (host : Host m) (input : String) : m (Except ReadFailure String) :=
  if input = "-" then host.inputText else host.fileText input

/-- The texts of files up to the first that cannot be read, and that failure. -/
def readSources (host : Host m) : List String → m (List (String × String) × Option ReadFailure)
  | [] => return ([], none)
  | path :: rest => do
    match ← host.fileText path with
    | .error failure => return ([], some failure)
    | .ok source =>
      let (sources, failure) ← readSources host rest
      return ((path, source) :: sources, failure)

def executeParse (host : Host m) (options : Parser.Options) (registry : Registry)
    (input : String) : m Execution := do
  match ← readSource host input with
  | .error failure => return ⟨.error (.unreadable failure), []⟩
  | .ok source =>
    return ⟨.ok (.ofParse options registry input source),
      Parser.parseLog options.maxDepth source⟩

def executeCheck (host : Host m) (options : Parser.Options) (registry : Registry)
    (files : List String) : m Execution := do
  let (sources, failure) ← readSources host files
  let log := sources.flatMap fun source ↦ Parser.parseLog options.maxDepth source.2
  match failure with
  | some failure => return ⟨.error (.unreadable failure), log⟩
  | none => return ⟨.ok (.ofChecks options registry sources), log⟩

def executeRun (kind : String) (events : List String) : Execution :=
  match Machine.builtin? kind with
  | .error fault => ⟨.error (.unknownMachine fault), []⟩
  | .ok config => ⟨.ok (.ofRun kind config events), Report.runLog config events⟩

end Command

end AgentMarkup.CommandLine
