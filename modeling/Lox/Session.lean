import Lox.Check
import Lox.Evaluation.Evaluate

/-!
# Sessions

A session runs one source text after another on the same machine. A text with static errors is
rejected: it is reported and leaves the session as it was.
-/

namespace Lox

/-! ## What a run tells -/

/-- A note on the progress of a run. -/
inductive Progress where
  | scanned (tokens : Nat)
  | parsed (statements : Nat)
  | syntaxErrors (count : Nat)
  | scopeErrors (count : Nat)
  | resolved (bindings : Nat)
  | halted (line : Int)
deriving DecidableEq, Inhabited, Repr

def Progress.message : Progress → String
  | scanned tokens => "scanned " ++ toString tokens ++ " tokens"
  | parsed statements => "parsed " ++ toString statements ++ " top-level statements"
  | syntaxErrors count => toString count ++ " syntax errors; skipping resolution"
  | scopeErrors count => toString count ++ " resolution errors; not executing"
  | resolved bindings => "resolved " ++ toString bindings ++ " local bindings"
  | halted line => "execution halted at line " ++ toString line

inductive Event where
  | progress (note : Progress)
  | report (report : Report)
deriving DecidableEq, Inhabited, Repr

/-- How a run ends. -/
inductive Verdict where
  | finished
  | rejected (errors : List StaticError)
  | failed (error : RuntimeError)
  | escaped (escape : Escape)
deriving DecidableEq, Inhabited, Repr

namespace Verdict

/-- Whether the text was rejected. -/
def hadError : Verdict → Bool
  | rejected _ => true
  | _ => false

/-- Whether the run ended with a runtime error. -/
def hadRuntimeError : Verdict → Bool
  | failed _ => true
  | _ => false

def ok (v : Verdict) : Bool := !v.hadError && !v.hadRuntimeError

end Verdict

/-- What a run printed and told, and how it ended. -/
structure RunResult where
  printed : List String
  events : List Event
  verdict : Verdict
deriving DecidableEq, Inhabited, Repr

/-- The reports of a run in order. -/
def RunResult.reports (r : RunResult) : List Report :=
  r.events.filterMap fun
    | .report report => some report
    | .progress _ => none

/-- The events of a rejection: the reports, then their number. -/
def rejection (errors : List StaticError) (note : Nat → Progress) : List Event :=
  errors.map (fun e => .report e.report) ++ [.progress (note errors.length)]

def RuntimeError.report (e : RuntimeError) : Report := .runtime e.token.line e.fault.message

/-- The verdict on a program that was run. -/
def Outcome.verdict : Outcome → Verdict
  | .finished => .finished
  | .failed error => .failed error
  | .escaped escape => .escaped escape

/-- The events of a program that was run: a runtime error is reported, then noted. -/
def Outcome.events : Outcome → List Event
  | .failed error => [.report error.report, .progress (.halted error.token.line)]
  | _ => []

/-! ## Running -/

structure Session where
  machine : Machine
  /-- The number of the next token. -/
  nextToken : Nat
deriving Inhabited

namespace Session

/-- A session in which nothing has run yet. -/
def initial (clock : Nat → Float) : Session := ⟨.initial clock, 0⟩

/-- Defines a global from outside. -/
def define (s : Session) (name : String) (value : Value) : Session :=
  { s with machine := { s.machine with
      heap := s.machine.heap.define s.machine.globals name value } }

/-- Runs a program that has been resolved and whose tokens number `tokens`. -/
def execute (limits : Limits) (s : Session) (program : List Stmt) (bindings : List Binding)
    (tokens : Nat) (before : List Event) : RunResult × Session :=
  let start := { s.machine with printed := #[] }
  let (outcome, machine) :=
    interpret limits.loops limits.depth program (start.addDistances bindings)
  ({ printed := machine.printed.toList
     events := before ++ outcome.events
     verdict := outcome.verdict },
    { machine := { machine with printed := #[] }, nextToken := s.nextToken + tokens })

/-- Runs a source text: scans, parses and resolves it, and executes it if all that succeeds. -/
def run (limits : Limits) (s : Session) (source : String) : RunResult × Session :=
  let scanned := scan source
  let events := [.progress (.scanned scanned.tokens.length)]
  match parse? limits.nesting s.nextToken scanned.tokens with
  | none => (⟨[], events, .escaped .exhausted⟩, s)
  | some parsed =>
    let events := events ++ [.progress (.parsed parsed.statements.length)]
    let errors := syntaxErrors scanned parsed
    if !errors.isEmpty then
      (⟨[], events ++ rejection errors .syntaxErrors, .rejected errors⟩, s)
    else
      match resolve? limits.height parsed.statements with
      | none => (⟨[], events, .escaped .exhausted⟩, s)
      | some resolution =>
        let errors := resolution.errors.map StaticError.scope
        if !errors.isEmpty then
          (⟨[], events ++ rejection errors .scopeErrors, .rejected errors⟩, s)
        else
          s.execute limits parsed.statements resolution.bindings (scanned.tokens.length - 1)
            (events ++ [.progress (.resolved resolution.bindings.length)])

end Session

end Lox
