import Lox.Proofs.Evaluation.Operators
import Lox.Proofs.Account.Erasure
import Lox.Proofs.Trace.Moments
import Lox.Session
import Mathlib.Data.List.Induction

/-!
# Sessions with an account

A history of a session is a list of steps: texts that are run, each within limits of its own, and globals
that are defined from outside. A traced session keeps the account of all its runs, and the programs
that it accepted. It is the same session otherwise.
-/

namespace Lox

/-! ## Histories -/

/-- No fault is found in the text, whose first token has the number `start`. It is for the program. -/
structure Clean (limits : Limits) (start : Nat) (source : String) (program : Program) : Prop where
  scanned : (scan source).errors = []
  parsed : parse? limits.nesting start (scan source).tokens = some ⟨program, []⟩
  fits : Stmt.allFit program limits.height = true
  resolved : (resolve program).errors = []

theorem syntaxErrors_isEmpty {s : Scan} {p : Parse} :
    (syntaxErrors s p).isEmpty = true ↔ s.errors = [] ∧ p.errors = [] := by
  simp [syntaxErrors]

namespace Session

/-- What may happen to a session from outside. -/
inductive Step where
  | run (limits : Limits) (source : String)
  | define (name : String) (value : Value) (scalar : value.IsScalar)

def step (s : Session) : Step → Session
  | .run limits source => (s.run limits source).2
  | .define name value _ => s.define name value

/-- The session after some steps. -/
def after (clock : Nat → Float) (steps : List Step) : Session :=
  steps.foldl step (.initial clock)

theorem after_concat (clock : Nat → Float) (steps : List Step) (last : Step) :
    after clock (steps ++ [last]) = (after clock steps).step last :=
  List.foldl_append

/-- The program that a text stands for, if no fault is found in it before it runs. -/
def accepted? (limits : Limits) (s : Session) (source : String) : Option Program :=
  let scanned := scan source
  match parse? limits.nesting s.nextToken scanned.tokens with
  | none => none
  | some parsed =>
    if (syntaxErrors scanned parsed).isEmpty then
      match resolve? limits.height parsed.statements with
      | none => none
      | some resolution => if resolution.errors.isEmpty then some parsed.statements else none
    else none

/-- An accepted text is a clean one. -/
theorem accepted?_eq_some_iff {limits : Limits} {s : Session} {source : String}
    {program : Program} :
    s.accepted? limits source = some program ↔ Clean limits s.nextToken source program := by
  unfold accepted?
  dsimp only
  constructor
  · intro accepted
    cases parses : parse? limits.nesting s.nextToken (scan source).tokens with
    | none => simp [parses] at accepted
    | some parsed =>
      simp only [parses, resolve?] at accepted
      split at accepted
      · next clean =>
        obtain ⟨scanned, faultless⟩ := syntaxErrors_isEmpty.1 clean
        obtain ⟨statements, errors⟩ := parsed
        obtain rfl : errors = [] := faultless
        by_cases fits : Stmt.allFit statements limits.height = true
        · simp only [fits, if_true] at accepted
          split at accepted
          · next resolved =>
            obtain rfl := Option.some.inj accepted
            exact ⟨scanned, parses, fits, List.isEmpty_iff.1 resolved⟩
          · cases accepted
        · simp [fits] at accepted
      · cases accepted
  · rintro ⟨scanned, parsed, fits, resolved⟩
    simp [parsed, syntaxErrors, scanned, resolve?, fits, resolved]

/-- The machine on which an accepted program starts. -/
def start (s : Session) (program : Program) : Machine :=
  { s.machine with printed := #[] }.addDistances (resolve program).bindings

/-- The session after a program of the text has been run. -/
def close (s : Session) (source : String) (machine : Machine) : Session :=
  { machine := { machine with printed := #[] }
    nextToken := s.nextToken + ((scan source).tokens.length - 1) }

/-- A text that is not accepted leaves the session as it was; else its program runs. -/
theorem run_eq (limits : Limits) (s : Session) (source : String) :
    match s.accepted? limits source with
    | none => (s.run limits source).2 = s ∧
        ((∃ errors, (s.run limits source).1.verdict = .rejected errors) ∨
          (s.run limits source).1.verdict = .escaped .exhausted)
    | some program =>
      let ended := interpret limits.loops limits.depth program (s.start program)
      (s.run limits source).2 = s.close source ended.2 ∧
        (s.run limits source).1.verdict = ended.1.verdict ∧
        (s.run limits source).1.printed = ended.2.printed.toList := by
  unfold accepted? run
  dsimp only
  cases parse? limits.nesting s.nextToken (scan source).tokens with
  | none => exact ⟨rfl, .inr rfl⟩
  | some parsed =>
    dsimp only
    cases clean : (syntaxErrors (scan source) parsed).isEmpty with
    | false => exact ⟨rfl, .inl ⟨_, rfl⟩⟩
    | true =>
      dsimp only [resolve?]
      by_cases fits : Stmt.allFit parsed.statements limits.height = true
      · simp only [if_pos fits]
        cases faultless : (resolve parsed.statements).errors with
        | nil => exact ⟨rfl, rfl, rfl⟩
        | cons error others => exact ⟨rfl, .inl ⟨_, rfl⟩⟩
      · simp only [if_neg fits]
        exact ⟨rfl, .inr rfl⟩

section Run

variable {limits : Limits} {s : Session} {source : String} {program : Program}

theorem run_rejected (rejected : s.accepted? limits source = none) :
    (s.run limits source).2 = s := by
  have plain := s.run_eq limits source
  rw [rejected] at plain
  exact plain.1

theorem run_accepted (accepted : s.accepted? limits source = some program) :
    let ended := interpret limits.loops limits.depth program (s.start program)
    (s.run limits source).2 = s.close source ended.2 ∧
      (s.run limits source).1.verdict = ended.1.verdict ∧
      (s.run limits source).1.printed = ended.2.printed.toList := by
  have plain := s.run_eq limits source
  rwa [accepted] at plain

end Run

/-! ## Invariants -/

/-- A property of sessions that stays, whatever happens to them from outside. -/
structure Invariant (P : Session → Prop) : Prop where
  define {s : Session} (holds : P s) (name : String) {value : Value} (scalar : value.IsScalar) :
    P (s.define name value)
  run {s : Session} (holds : P s) {limits : Limits} {source : String} {program : Program}
    (accepted : s.accepted? limits source = some program) :
    P (s.close source (interpret limits.loops limits.depth program (s.start program)).2)

namespace Invariant

variable {P : Session → Prop} (invariant : Invariant P)
include invariant

theorem step {s : Session} (holds : P s) (next : Step) : P (s.step next) := by
  cases next with
  | define name value scalar => exact invariant.define holds name scalar
  | run limits source =>
    rw [Session.step]
    cases accepted : s.accepted? limits source with
    | none =>
      rw [run_rejected accepted]
      exact holds
    | some program =>
      rw [(run_accepted accepted).1]
      exact invariant.run holds accepted

theorem steps {s : Session} (holds : P s) (later : List Step) : P (later.foldl Session.step s) := by
  induction later generalizing s with
  | nil => exact holds
  | cons next later inductionHypothesis => exact inductionHypothesis (invariant.step holds next)

theorem after {clock : Nat → Float} (initial : P (.initial clock)) (steps : List Step) :
    P (after clock steps) :=
  invariant.steps initial steps

end Invariant

end Session

/-! ## Traced sessions -/

structure TracedSession where
  session : Session
  /-- What has happened in all runs, the latest first. -/
  moments : List Moment
  /-- The programs that were accepted, the latest first. -/
  programs : List Program

namespace TracedSession

def initial (clock : Nat → Float) : TracedSession := ⟨.initial clock, [], []⟩

/-- Runs an accepted program of a text. -/
def execute (limits : Limits) (s : TracedSession) (source : String) (program : Program) :
    Outcome × TracedSession :=
  let (outcome, t) := NotedRun.interpret Moment.scribe limits.loops limits.depth program
    ⟨s.session.start program, s.moments⟩
  (outcome, ⟨s.session.close source t.machine, t.notes, program :: s.programs⟩)

def step (s : TracedSession) : Session.Step → TracedSession
  | .run limits source =>
    match s.session.accepted? limits source with
    | none => s
    | some program => (s.execute limits source program).2
  | .define name value _ => { s with session := s.session.define name value }

/-- The session after some steps, with its account. -/
def after (clock : Nat → Float) (steps : List Session.Step) : TracedSession :=
  steps.foldl step (.initial clock)

/-- All that the resolver looked at in the programs that were accepted. -/
def visits (s : TracedSession) : List Visit := s.programs.flatMap programVisits

theorem execute_session (limits : Limits) (s : TracedSession) (source : String)
    (program : Program) :
    let ended := interpret limits.loops limits.depth program (s.session.start program)
    (s.execute limits source program).1 = ended.1 ∧
      (s.execute limits source program).2.session = s.session.close source ended.2 := by
  have erased := interpret_noted Moment.scribe limits.loops limits.depth program
    ⟨s.session.start program, s.moments⟩
  dsimp only at erased ⊢
  rw [erased]
  exact ⟨rfl, rfl⟩

/-- The account changes nothing. -/
theorem step_session (s : TracedSession) (step : Session.Step) :
    (s.step step).session = s.session.step step := by
  cases step with
  | define name value scalar => rfl
  | run limits source =>
    rw [TracedSession.step, Session.step]
    cases accepted : s.session.accepted? limits source with
    | none => exact (Session.run_rejected accepted).symm
    | some program =>
      have plain := (Session.run_accepted accepted).1
      exact (s.execute_session limits source program).2.trans plain.symm

theorem after_concat (clock : Nat → Float) (steps : List Session.Step) (last : Session.Step) :
    after clock (steps ++ [last]) = (after clock steps).step last :=
  List.foldl_append

theorem after_session (clock : Nat → Float) (steps : List Session.Step) :
    (after clock steps).session = Session.after clock steps := by
  induction steps using List.reverseRecOn with
  | nil => rfl
  | append_singleton steps last inductionHypothesis =>
    rw [after_concat, Session.after_concat, step_session, inductionHypothesis]

end TracedSession

end Lox
