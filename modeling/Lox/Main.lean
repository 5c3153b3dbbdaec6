import Lox.Shell.Run

/-!
# The command line

Runs a file or a prompt. All decisions are made by `Lox.Shell`; here files and lines are read and
texts are written.
-/

namespace Lox.Shell

/-- Writes a transcript to the two streams of the process. -/
def emit (text : Transcript) : IO Unit := do
  (← IO.getStderr).putStr text.err
  let out ← IO.getStdout
  out.putStr text.out
  out.flush

/-- The clock of a run: it starts now, in seconds, and each reading is a nanosecond later. -/
def startClock : IO (Nat → Float) := do
  let now ← IO.monoNanosNow
  return fun reading => Float.ofNat (now + reading) / 1e9

/-- The text of a file. -/
def readFile (path : String) : IO (Except FileFault String) := do
  try
    let bytes ← IO.FS.readBinFile path
    return decodeFile bytes.toList
  catch
    | .noFileOrDirectory .. => return .error .missing
    | fault => return .error (.other (toString fault))

/-- The code with which the process ends. -/
def finish : Ending → IO UInt32
  | .exit code => return code.toUInt32
  | .invalidPath => do
    emit ⟨"", "embedded null byte\n"⟩
    return 1
  | .escaped (.internal fault) => do
    emit ⟨"", fault.message ++ "\n"⟩
    return 1
  | .escaped _ => return 1

/-- Reads lines from standard input and runs each, until the input or the prompt ends. -/
partial def promptLoop (verbose : Bool) (session : Session) : IO UInt32 := do
  emit ⟨promptText, ""⟩
  let line ← (← IO.getStdin).getLine
  if line.isEmpty then
    let (text, ending) := promptEnd
    emit text
    finish ending
  else
    let clean := (Text.lines (Text.unifyLineEnds line.toList)).headD []
    let session := { session with machine := { session.machine with clock := ← startClock } }
    let (text, ending?, session) := runLine .standard verbose session (String.ofList clean)
    emit text
    match ending? with
    | some ending => finish ending
    | none => promptLoop verbose session

/-- Runs a command. -/
def runMain : Command → IO UInt32
  | .help => do
    emit helpTranscript.1
    finish helpTranscript.2
  | .misuse problem => do
    emit (misuseTranscript problem).1
    finish (misuseTranscript problem).2
  | .file verbose path => do
    let (text, ending) := runFile .standard (.initial (← startClock)) verbose path (← readFile path)
    emit text
    finish ending
  | .prompt verbose => do promptLoop verbose (.initial (← startClock))

end Lox.Shell

def main (arguments : List String) : IO UInt32 :=
  Lox.Shell.runMain (.parse arguments)
