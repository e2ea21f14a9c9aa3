import AgentMarkup.CommandLine.Arguments

/-!
The help texts. A text has a line on its subject, the form of a call, and blocks that
list commands, arguments and options with a column for what each of them does.
-/

set_option autoImplicit false
set_option relaxedAutoImplicit false

namespace AgentMarkup.CommandLine.Help

def versionText : String := "glang 0.1.0"

/-- A block of entries under a heading, the descriptions in one column. -/
def block (heading : String) (entries : List (String × String)) : String :=
  let width := (entries.map (·.1.length)).foldl max 0
  let line (entry : String × String) : String :=
    "  " ++ entry.1 ++ String.ofList (List.replicate (width - entry.1.length) ' ') ++ "  " ++
      entry.2 ++ "\n"
  heading ++ ":\n" ++ String.join (entries.map line)

def page (subject usage : String) (blocks : List String) : String :=
  subject ++ "\n\nUsage: glang " ++ usage ++ "\n" ++ String.join (blocks.map ("\n" ++ ·))

def machineWord : String × String := ("<MACHINE>", "Machine kind (stream, tool, approve)")

def helpOption : String :=
  block "Options" [("-h, --help", "Print help")]

def commands : List (String × String) := [
  ("parse", "Parse a document and print its tree as JSON (\"-\" reads stdin)"),
  ("check", "Validate one or more documents"),
  ("primitives", "List the active primitives"),
  ("machines", "List the pre-built state machines"),
  ("run", "Drive a fresh machine through a sequence of events"),
  ("repl", "Start an interactive session with a machine"),
  ("help", "Print this message or the help of the given subcommand(s)")]

def programPage (environment : Environment) : String :=
  let path := (environment.get? Config.pathVariable).getD ""
  page "Parse, validate and drive G-Lang documents" "[OPTIONS] <COMMAND>"
    [block "Commands" commands,
      block "Options" [
        ("-c, --config <CONFIG>",
          s!"Path to a YAML configuration file [env: {Config.pathVariable}={path}]"),
        ("-e, --extension <EXTENSIONS>", "Extension manifest to register (repeatable)"),
        ("    --no-validate", "Skip schema validation"),
        ("    --strict", "Report unbalanced tags as errors"),
        ("-h, --help", "Print help"),
        ("-V, --version", "Print version")]]

/-- The form of a call of a command, and its words. -/
def wordsOf (command : String) : String × List (String × String) :=
  match command with
  | "parse" => (" <INPUT>", [("<INPUT>", "")])
  | "check" => (" <FILES>...", [("<FILES>...", "")])
  | "run" =>
    (" <MACHINE> [EVENTS]...", [machineWord, ("[EVENTS]...", "Events to apply in order")])
  | "repl" => (" <MACHINE>", [machineWord])
  | "help" => (" [COMMAND]...", [("[COMMAND]...", "Print help for the subcommand(s)")])
  | _ => ("", [])

def commandPage (command : String) : String :=
  let (usage, words) := wordsOf command
  page ((commands.lookup command).getD "") (command ++ usage)
    ((if words.isEmpty then [] else [block "Arguments" words]) ++
      if command = "help" then [] else [helpOption])

def text (environment : Environment) : Option String → String
  | none => programPage environment
  | some command => commandPage command

end AgentMarkup.CommandLine.Help
