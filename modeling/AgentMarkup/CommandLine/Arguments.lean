import AgentMarkup.CommandLine.Config

/-!
The arguments of a call. Options of the program stand before the command, each at most
once but the repeatable `--extension`; after the command only words follow. The mark
`--` makes words of all arguments after it.
-/

set_option autoImplicit false
set_option relaxedAutoImplicit false

namespace AgentMarkup.CommandLine

inductive Command where
  | parse (input : String)
  | check (files : List String)
  | primitives
  | machines
  | run (machine : String) (events : List String)
  | session (machine : String)
deriving DecidableEq

/-- A command with the options of its call. -/
structure Invocation where
  config : Option String
  extensions : List String
  noValidate : Bool
  strict : Bool
  command : Command
deriving DecidableEq

/-- What is wrong with a call. -/
inductive UsageFault where
  | unexpected (argument : String)
  | missingValue (option : String)
  | emptyValue (what : String)
  | repeated (option : String)
  | missingCommand
  | missingWord (name : String)
deriving DecidableEq

def UsageFault.message : UsageFault → String
  | .unexpected argument => s!"error: unexpected argument '{argument}' found"
  | .missingValue option => s!"error: a value is required for '--{option}' but none was supplied"
  | .emptyValue what => s!"error: a value is required for '{what}' but none was supplied"
  | .repeated option => s!"error: the argument '--{option}' cannot be used multiple times"
  | .missingCommand => "error: a command is required"
  | .missingWord name => s!"error: the required argument {name} was not provided"

/-- Why a call names no command to carry out. -/
inductive Halt where
  | usage (fault : UsageFault)
  /-- Help on the program, or on one of its commands. -/
  | help (command : Option String)
  | version
deriving DecidableEq

namespace Arguments

inductive ProgramOption where
  | config
  | extension
  | noValidate
  | strict
  | help
  | version
deriving DecidableEq

namespace ProgramOption

def name : ProgramOption → String
  | .config => "config"
  | .extension => "extension"
  | .noValidate => "no-validate"
  | .strict => "strict"
  | .help => "help"
  | .version => "version"

def all : List ProgramOption :=
  [.config, .extension, .noValidate, .strict, .help, .version]

def ofName? (name : String) : Option ProgramOption :=
  all.find? fun option ↦ option.name == name

def ofLetter? (c : Char) : Option ProgramOption :=
  if c = 'c' then some .config
  else if c = 'e' then some .extension
  else if c = 'h' then some .help
  else if c = 'V' then some .version
  else none

def takesValue : ProgramOption → Bool
  | .config | .extension => true
  | .noValidate | .strict | .help | .version => false

end ProgramOption

/-- The form of an argument. -/
inductive Shape where
  | escape
  | long (name : String) (value : Option String)
  | short (letter : Char) (rest : List Char)
  | word
deriving DecidableEq

/-- A single hyphen is a word. -/
def shapeOf (argument : String) : Shape :=
  match argument.toList with
  | ['-', '-'] => .escape
  | '-' :: '-' :: rest =>
    match rest.dropWhile (· ≠ '=') with
    | [] => .long (String.ofList rest) none
    | _ :: value => .long (String.ofList (rest.takeWhile (· ≠ '='))) (some (String.ofList value))
  | '-' :: letter :: rest => .short letter rest
  | _ => .word

/-- The options met so far. -/
structure Settings where
  config : Option String
  extensions : List String
  noValidate : Bool
  strict : Bool

namespace Settings

def start : Settings := ⟨none, [], false, false⟩

def fault {α : Type} (f : UsageFault) : Except Halt α :=
  .error (.usage f)

/-- Sets an option that has a value. -/
def setValue (s : Settings) (option : ProgramOption) (value : String) : Except Halt Settings :=
  if value = "" then fault (.emptyValue option.name)
  else
    match option with
    | .config =>
      if s.config.isSome then fault (.repeated option.name)
      else .ok { s with config := some value }
    | _ => .ok { s with extensions := s.extensions ++ [value] }

/-- Sets an option that stands for itself. -/
def setFlag (s : Settings) (option : ProgramOption) : Except Halt Settings :=
  match option with
  | .noValidate =>
    if s.noValidate then fault (.repeated option.name) else .ok { s with noValidate := true }
  | .strict => if s.strict then fault (.repeated option.name) else .ok { s with strict := true }
  | .version => .error .version
  | _ => .error (.help none)

end Settings

open Settings

/-- Whether the value of an option may be taken from this argument. -/
def isWord (argument : String) : Bool :=
  shapeOf argument = .word

/-- The value written into a cluster of letters after an option, if there is one. -/
def attachedValue : List Char → Option String
  | [] => none
  | '=' :: value => some (String.ofList value)
  | value => some (String.ofList value)

/-- Whether the words of a command are paths, which are not empty. -/
def takesPaths (command : String) : Bool :=
  command = "check"

/-- Why an argument after a command is no word of it, if it is none. With a limit, only
so many more words may come. -/
def wordHalt? (command : String) (limit : Option Nat) (escaped : Bool) (argument : String) :
    Option Halt :=
  if !escaped && argument = "--help" then some (.help (some command))
  else
    match escaped, shapeOf argument with
    | false, .short 'h' _ => some (.help (some command))
    | false, .long _ _ | false, .short _ _ => some (.usage (.unexpected argument))
    | _, _ =>
      if limit = some 0 then some (.usage (.unexpected argument))
      else if takesPaths command ∧ argument = "" then some (.usage (.emptyValue "<FILES>..."))
      else none

/-- The words after a command. -/
def readWords (command : String) (limit : Option Nat) (escaped : Bool) :
    List String → Except Halt (List String)
  | [] => .ok []
  | argument :: rest =>
    if !escaped && argument = "--" then readWords command limit true rest
    else
      match wordHalt? command limit escaped argument with
      | some halt => .error halt
      | none => (readWords command (limit.map (· - 1)) escaped rest).map (argument :: ·)

def firstWord (name : String) : List String → Except Halt String
  | word :: _ => .ok word
  | [] => fault (.missingWord name)

/-- The command of this name with the arguments after it. -/
def readCommand (name : String) (rest : List String) : Except Halt Command := do
  match name with
  | "parse" => return .parse (← firstWord "<INPUT>" (← readWords name (some 1) false rest))
  | "check" =>
    match ← readWords name none false rest with
    | [] => fault (.missingWord "<FILES>...")
    | files => return .check files
  | "primitives" =>
    let _ ← readWords name (some 0) false rest
    return .primitives
  | "machines" =>
    let _ ← readWords name (some 0) false rest
    return .machines
  | "run" =>
    match ← readWords name none false rest with
    | [] => fault (.missingWord "<MACHINE>")
    | machine :: events => return .run machine events
  | "repl" => return .session (← firstWord "<MACHINE>" (← readWords name (some 1) false rest))
  | _ => fault (.unexpected name)

def commandNames : List String :=
  ["parse", "check", "primitives", "machines", "run", "repl"]

/-- What the command `help` is asked about. -/
def readHelp : List String → Halt
  | [] => .help none
  | [topic] =>
    if commandNames.contains topic ∨ topic = "help" then .help (some topic)
    else .usage (.unexpected topic)
  | _ :: argument :: _ => .usage (.unexpected argument)

/-- Applies an option, or leaves it waiting for its value. -/
def applyOption (s : Settings) (argument : String) (option : ProgramOption)
    (value : Option String) : Except Halt (Settings × Option ProgramOption) :=
  match option.takesValue, value with
  | true, some value => (setValue s option value).map (·, none)
  | true, none => .ok (s, some option)
  | false, none => (setFlag s option).map (·, none)
  | false, some _ => fault (.unexpected argument)

/-- Applies an argument that is no word. -/
def readOption (s : Settings) (argument : String) :
    Except Halt (Settings × Option ProgramOption) :=
  match shapeOf argument with
  | .long name value =>
    match ProgramOption.ofName? name with
    | some option => applyOption s argument option value
    | none => fault (.unexpected argument)
  | .short letter cluster =>
    match ProgramOption.ofLetter? letter with
    | some option =>
      applyOption s argument option (if option.takesValue then attachedValue cluster else none)
    | none => fault (.unexpected argument)
  | .escape | .word => fault (.unexpected argument)

/-- The options and the command of a call; `waiting` is an option that lacks its value. -/
def readArguments (s : Settings) (waiting : Option ProgramOption) :
    List String → Except Halt (Settings × Command)
  | [] => fault (waiting.elim .missingCommand fun option ↦ .missingValue option.name)
  | argument :: rest =>
    match waiting, isWord argument with
    | some option, true => do readArguments (← setValue s option argument) none rest
    | some option, false => fault (.missingValue option.name)
    | none, true =>
      if argument = "help" then .error (readHelp rest)
      else (readCommand argument rest).map (s, ·)
    | none, false => do
      let (s, waiting) ← readOption s argument
      readArguments s waiting rest

/-- The configuration path of a call, which the environment may supply. -/
def configPath (s : Settings) (environment : Environment) : Except Halt (Option String) :=
  match s.config.or (environment.get? Config.pathVariable) with
  | some "" => fault (.emptyValue Config.pathVariable)
  | path => .ok path

def read (environment : Environment) (arguments : List String) : Except Halt Invocation := do
  let (s, command) ← readArguments .start none arguments
  return ⟨← configPath s environment, s.extensions, s.noValidate, s.strict, command⟩

end Arguments

end AgentMarkup.CommandLine
