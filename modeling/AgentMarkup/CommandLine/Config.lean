import AgentMarkup.CommandLine.Host
import AgentMarkup.Flow.Reader
import AgentMarkup.Parser

/-!
The configuration of the command line: parser options and the manifests of extensions.
It comes from a file, if one is named, and variables of the environment override it.
-/

set_option autoImplicit false
set_option relaxedAutoImplicit false

namespace AgentMarkup.CommandLine

structure Config where
  parser : Parser.Options
  /-- Paths of manifests, in the order of registration. -/
  extensions : List String
deriving DecidableEq

namespace Config

def standard : Config := ⟨.standard, []⟩

def decodePaths (d : Datum) : Decoded (List String) := do
  let fields ← d.asFields ["paths"]
  defaultField fields "paths" [] (Datum.asList Datum.asText)

def decode (d : Datum) : Decoded Config := do
  let fields ← d.asFields ["parser", "extensions"]
  let parser ← defaultField fields "parser" .standard Parser.Options.decode
  let extensions ← defaultField fields "extensions" [] decodePaths
  return ⟨parser, extensions⟩

def toJson (c : Config) : Json :=
  .obj [("parser", c.parser.toJson), ("extensions", .obj [("paths", .strs c.extensions)])]

def pathVariable : String := "GLANG_CONFIG"

/-- A variable switches on with `1` or `true`, and off with any other value. -/
def readSwitch (value : String) : Bool :=
  value = "1" || Text.lowercase value = "true"

/-- Decimal digits of a number below `2 ^ 64`, perhaps after a plus sign. -/
def readCount? (value : String) : Option Nat :=
  let digits := match value.toList with
    | '+' :: digits => digits
    | digits => digits
  let n := Decimal.digitsValue digits
  if digits.isEmpty || !digits.all Char.isDigit then none
  else if n < Decimal.twoPow 64 then some n
  else none

/-- The paths between colons; empty ones are passed over. -/
def readPaths (value : String) : List String :=
  (value.splitOn ":").filter (· ≠ "")

/-- Lets the environment override; a depth that is no count is ignored. -/
def override (c : Config) (environment : Environment) : Config :=
  let parser := c.parser
  { parser :=
      { validate := (environment.get? "GLANG_VALIDATE").elim parser.validate readSwitch
        strict := (environment.get? "GLANG_STRICT").elim parser.strict readSwitch
        maxDepth := ((environment.get? "GLANG_MAX_DEPTH").bind readCount?).getD parser.maxDepth }
    extensions := (environment.get? "GLANG_EXTENSIONS").elim c.extensions readPaths }

/-- A depth limit of zero is refused. -/
def check (c : Config) : Except LoadFault Config :=
  if c.parser.maxDepth = 0 then .error (.invalid "parser.max_depth must be at least 1")
  else .ok c

/-- The configuration in the file at this path, or else at the path in the environment. -/
def load {m : Type → Type} [Monad m] (host : Host m) (environment : Environment)
    (path : Option String) : m (Except LoadFault Config) := do
  match path.or (environment.get? pathVariable) with
  | none => return (standard.override environment).check
  | some path =>
    match ← host.load path Flow.readDatum decode with
    | .error fault => return .error fault
    | .ok config => return (config.override environment).check

end Config

end AgentMarkup.CommandLine
