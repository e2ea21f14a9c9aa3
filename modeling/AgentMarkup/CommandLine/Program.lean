import AgentMarkup.CommandLine.Help
import AgentMarkup.CommandLine.Manifest
import AgentMarkup.CommandLine.Session

/-!
A call of the program, from its arguments to the texts it prints and its exit status.
Configuration comes first, then the extensions in order, then the command; the first of
them that fails decides. A session is not carried out here but handed back.
-/

set_option autoImplicit false
set_option relaxedAutoImplicit false

namespace AgentMarkup.CommandLine

/-- The texts of a call that is over, and its exit status. -/
structure Completed where
  output : String
  errors : String
  status : Nat
deriving DecidableEq

namespace Completed

def success (output : String) : Completed := ⟨output, "", 0⟩

def failure (errors : String) : Completed := ⟨"", errors ++ "\n", 1⟩

def usage (fault : UsageFault) : Completed := ⟨"", fault.message ++ "\n", 2⟩

def ofHalt (environment : Environment) : Halt → Completed
  | .usage fault => usage fault
  | .help command => success (Help.text environment command)
  | .version => success (Help.versionText ++ "\n")

def ofOutcome : Except Failure Report → Completed
  | .ok ⟨text, true⟩ => success (text ++ "\n")
  | .ok ⟨text, false⟩ => failure text
  | .error e => failure ("Error: " ++ e.inspect)

end Completed

/-- How a call goes on: it is over, or a session of this kind begins. -/
inductive Course where
  | completed (result : Completed)
  | session (kind : String) (machine : Machine)

namespace Program

variable {m : Type → Type} [Monad m]

/-- Options of the call go over the configuration. -/
def settle (config : Config) (i : Invocation) : Config :=
  { parser :=
      { validate := config.parser.validate && !i.noValidate
        strict := config.parser.strict || i.strict
        maxDepth := config.parser.maxDepth }
    extensions := config.extensions ++ i.extensions }

/-- Registers the extensions of these manifests, or tells why one of them fails. -/
def registerAll (host : Host m) (registry : Registry) : List String → m (Except String Registry)
  | [] => return .ok registry
  | path :: rest => do
    match ← Manifest.load host path with
    | .error fault => return .error fault.message
    | .ok e =>
      match registry.register e with
      | .error fault => return .error s!"{path}: {fault.message}"
      | .ok registry => registerAll host registry rest

def carryOut (host : Host m) (options : Parser.Options) (registry : Registry) :
    Command → m Course
  | .parse input => return finish (← Command.executeParse host options registry input)
  | .check files => return finish (← Command.executeCheck host options registry files)
  | .primitives => return .completed (.ofOutcome (.ok (.ofPrimitives registry)))
  | .machines => return .completed (.ofOutcome (.ok .ofMachines))
  | .run kind events => return finish (Command.executeRun kind events)
  | .session kind =>
    match Machine.builtin? kind with
    | .ok config => return .session kind (.start config)
    | .error fault => return .completed (.ofOutcome (.error (.unknownMachine fault)))
where
  finish (e : Execution) : Course :=
    .completed (.ofOutcome e.outcome)

def invoke (host : Host m) (environment : Environment) (i : Invocation) : m Course := do
  match ← Config.load host environment i.config with
  | .error fault => return .completed (.failure ("Config error: " ++ fault.message))
  | .ok config =>
    let config := settle config i
    match ← registerAll host .empty config.extensions with
    | .error reason => return .completed (.failure ("Extension error: " ++ reason))
    | .ok registry => carryOut host config.parser registry i.command

def run (host : Host m) (environment : Environment) (arguments : List String) : m Course :=
  match Arguments.read environment arguments with
  | .error halt => return .completed (.ofHalt environment halt)
  | .ok i => invoke host environment i

end Program

end AgentMarkup.CommandLine
