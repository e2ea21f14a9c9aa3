import AgentMarkup.CommandLine.Program

/-!
The program on a real system: files, the standard streams and the environment. All that
is decided is decided by the call; here it is only read and printed.
-/

set_option autoImplicit false
set_option relaxedAutoImplicit false

namespace AgentMarkup.CommandLine

/-- The failure that an error of the system stands for. -/
def readFailureOf : IO.Error → ReadFailure
  | .noFileOrDirectory .. => .notFound
  | .permissionDenied .. => .permissionDenied
  | .inappropriateType .. => .isDirectory
  | e => .content "Other" (toString e)

def textOfBytes (bytes : ByteArray) : Except ReadFailure String :=
  match String.fromUTF8? bytes with
  | some text => .ok text
  | none => .error .invalidText

def readWhole (read : IO ByteArray) : IO (Except ReadFailure String) :=
  tryCatch (textOfBytes <$> read) fun e ↦ pure (.error (readFailureOf e))

/-- The rest of a stream, read piece by piece. -/
partial def readRest (input : IO.FS.Stream) (done : ByteArray) : IO ByteArray := do
  let piece ← input.read 65536
  if piece.isEmpty then return done else readRest input (done ++ piece)

def systemHost : Host IO where
  fileText path := readWhole (IO.FS.readBinFile path)
  inputText := readWhole do readRest (← IO.getStdin) .empty

def variableNames : List String :=
  [Config.pathVariable, "GLANG_VALIDATE", "GLANG_STRICT", "GLANG_MAX_DEPTH", "GLANG_EXTENSIONS"]

def readEnvironment : IO Environment := do
  let values ← variableNames.mapM fun name ↦ do return (← IO.getEnv name).map (name, ·)
  return Table.ofList (values.filterMap id)

/-- Answers lines until the input or the session ends. -/
partial def converse (input output : IO.FS.Stream) (m : Machine) : IO Unit := do
  let line ← input.getLine
  if line.isEmpty then output.putStr Session.farewell
  else
    let reply := Session.respond m line
    output.putStr reply.printed
    output.flush
    unless reply.ended do converse input output reply.machine

/-- Carries out a call and gives its exit status. -/
def start (arguments : List String) : IO UInt32 := do
  match ← Program.run systemHost (← readEnvironment) arguments with
  | .completed result =>
    (← IO.getStdout).putStr result.output
    (← IO.getStderr).putStr result.errors
    return result.status.toUInt32
  | .session kind m =>
    let output ← IO.getStdout
    output.putStr (Session.greeting kind m)
    converse (← IO.getStdin) output m
    return 0

end AgentMarkup.CommandLine

def main (arguments : List String) : IO UInt32 :=
  AgentMarkup.CommandLine.start arguments
