import Lox.Session
import Lox.Shell.Arguments
import Lox.Shell.File

/-!
# Running from the command line

What running a file or a line of a prompt writes, and with which code the program ends. Diagnostics
and notes on progress go to the error stream, in the order of their events.
-/

namespace Lox.Shell

/-- What is written to the two streams. -/
structure Transcript where
  out : String
  err : String
deriving DecidableEq, Inhabited, Repr

namespace Transcript

def empty : Transcript := ⟨"", ""⟩

def append (a b : Transcript) : Transcript := ⟨a.out ++ b.out, a.err ++ b.err⟩

end Transcript

/-- How the program ends. -/
inductive Ending where
  | exit (code : Nat)
  | escaped (escape : Escape)
  /-- The path holds a character that no path can hold. -/
  | invalidPath
deriving DecidableEq, Inhabited, Repr

/-! ## Exit codes -/

def usageCode : Nat := 64
def dataCode : Nat := 65
def inputCode : Nat := 66
def softwareCode : Nat := 70

def stackOverflow : String := "pylox: stack overflow (maximum recursion depth exceeded)"

/-! ## Streams -/

/-- A line of a log, with the name of its source. -/
def logLine (source message : String) : String := source ++ ": " ++ message

/-- The line that an event adds to the error stream, if it adds one. -/
def eventLine? (verbose : Bool) : Event → Option String
  | .report report => some report.text
  | .progress note => if verbose then some (logLine "pylox.session" note.message) else none

/-- What a run writes. -/
def transcript (verbose : Bool) (result : RunResult) : Transcript :=
  let overflow := match result.verdict with
    | .escaped .exhausted => [stackOverflow]
    | _ => []
  { out := textOfLines result.printed
    err := textOfLines (result.events.filterMap (eventLine? verbose) ++ overflow) }

/-! ## Files -/

/-- The ending of the run of a file. -/
def fileEnding : Verdict → Ending
  | .finished => .exit 0
  | .rejected _ => .exit dataCode
  | .failed _ => .exit softwareCode
  | .escaped .exhausted => .exit softwareCode
  | .escaped escape => .escaped escape

/-- Runs the file at a path, of which `content` is the text. -/
def runFile (limits : Limits) (session : Session) (verbose : Bool) (path : String)
    (content : Except FileFault String) : Transcript × Ending :=
  if path.contains '\x00' then (.empty, .invalidPath)
  else
    match content with
    | .error fault =>
      (⟨"", "pylox: " ++ path ++ ": " ++ fault.message path ++ "\n"⟩, .exit inputCode)
    | .ok source =>
      let started := if verbose then logLine "pylox.cli" ("running " ++ path) ++ "\n" else ""
      let (result, _) := session.run limits source
      (Transcript.append ⟨"", started⟩ (transcript verbose result), fileEnding result.verdict)

/-! ## The prompt -/

def promptText : String := "> "

/-- What the end of input adds to the output. -/
def promptEnd : Transcript × Ending := (⟨"\n", ""⟩, .exit 0)

/-- Whether the verdict on a line ends the prompt. A mistake of the user does not. -/
def promptEnding? : Verdict → Option Ending
  | .escaped .exhausted => some (.exit softwareCode)
  | .escaped escape => some (.escaped escape)
  | _ => none

/-- Runs a line that was typed at the prompt. -/
def runLine (limits : Limits) (verbose : Bool) (session : Session) (line : String) :
    Transcript × Option Ending × Session :=
  let (result, session) := session.run limits line
  (transcript verbose result, promptEnding? result.verdict, session)

/-- Runs a prompt on given lines, after what has been written before. -/
def runPrompt (limits : Limits) (verbose : Bool) :
    List String → Session → (before : Transcript) → Transcript × Ending
  | [], _, before =>
    let (text, ending) := promptEnd
    ((before.append ⟨promptText, ""⟩).append text, ending)
  | line :: rest, session, before =>
    let (text, ending?, session) := runLine limits verbose session line
    let written := (before.append ⟨promptText, ""⟩).append text
    match ending? with
    | some ending => (written, ending)
    | none => runPrompt limits verbose rest session written

/-! ## Commands -/

/-- What a command without a run writes and how it ends. -/
def misuseTranscript (problem : Misuse) : Transcript × Ending :=
  (⟨"", problem.message ++ "\n" ++ usage⟩, .exit usageCode)

def helpTranscript : Transcript × Ending := (⟨usage, ""⟩, .exit 0)

/-- Runs a command in a working directory, with the given text as input. -/
def runCommand (limits : Limits) (session : Session) (directory : Directory) (input : String) :
    Command → Transcript × Ending
  | .help => helpTranscript
  | .misuse problem => misuseTranscript problem
  | .file verbose path => runFile limits session verbose path (directory.read path)
  | .prompt verbose =>
    let lines := (Text.lines (Text.unifyLineEnds input.toList)).map String.ofList
    runPrompt limits verbose lines session .empty

end Lox.Shell
