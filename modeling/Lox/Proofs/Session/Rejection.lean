import Lox.Proofs.Matching.Parsing
import Lox.Proofs.Matching.Resolution
import Lox.Proofs.Trace.Sessions

/-!
# Rejected texts

A session and the static check read a text in the same way, except that a session numbers the tokens after
those of earlier texts. So they find the same faults. A rejected text leaves nothing behind, and the
run of an accepted one reports at most one error, that of the run.
-/

namespace Lox

/-! ## Numbering -/

/-- The same tokens under other numbers. -/
def Matching.renumbering : Matching where
  tokens t t' := t' = t
  occurrences o o' := o'.token = o.token
  text := by
    rintro t _ rfl
    exact ⟨rfl, rfl, rfl⟩
  token := fun _ _ same => same

theorem scan_ended (source : String) : ∃ t ∈ (scan source).tokens, t.kind = .endOfInput :=
  ⟨_, List.mem_append_right _ (List.mem_singleton_self _), rfl⟩

theorem parse?_renumbered (depth start start' : Nat) (source : String) :
    Option.Rel (Parse.Matched .renumbering) (parse? depth start (scan source).tokens)
      (parse? depth start' (scan source).tokens) := by
  have same : List.Forall₂ Matching.renumbering.tokens (scan source).tokens (scan source).tokens :=
    List.forall₂_same.2 fun _ _ => rfl
  exact parse?_matched (Grammar.State.initial_matched same (scan_ended source)
    fun _ _ _ _ tokens => tokens) depth

theorem syntaxErrors_renumbered (s : Scan) {p p' : Parse} (matched : p.Matched .renumbering p') :
    (syntaxErrors s p').map StaticError.report = (syntaxErrors s p).map StaticError.report := by
  have parsed : ∀ {es es' : List ParseError},
      List.Forall₂ (ParseError.Matched .renumbering) es es' →
        (es'.map .parse).map StaticError.report = (es.map .parse).map StaticError.report := by
    intro es es' related
    induction related with
    | nil => rfl
    | @cons e e' _ _ first _ inductionHypothesis =>
      have place : e'.place.token = e.place.token := first.place
      simp only [List.map_cons, inductionHypothesis, StaticError.report, StaticError.line,
        StaticError.location, StaticError.message, place, first.fault]
  simp only [syntaxErrors, List.map_append, parsed matched.errors]

theorem scopeErrors_renumbered {r r' : Resolution} (matched : r.Matched .renumbering r') :
    r'.errors = r.errors := by
  have same : List.Forall₂ Eq r.errors r'.errors := matched.errors.imp fun e e' related => by
    have token : e'.token = e.token := related.token
    have fault := related.fault
    cases e
    cases e'
    simp_all
  exact (List.forall₂_eq_eq_eq ▸ same : r.errors = r'.errors).symm

/-! ## Runs and checks -/

namespace Session

/-- No report is among the events. -/
def Silent (events : List Event) : Prop :=
  ∀ event ∈ events, ∃ note, event = .progress note

theorem reports_append (printed : List String) (events more : List Event) (verdict : Verdict) :
    RunResult.reports ⟨printed, events ++ more, verdict⟩ =
      RunResult.reports ⟨printed, events, verdict⟩ ++
        RunResult.reports ⟨printed, more, verdict⟩ :=
  List.filterMap_append

theorem Silent.reports {events : List Event} (silent : Silent events) (printed : List String)
    (verdict : Verdict) : RunResult.reports ⟨printed, events, verdict⟩ = [] := by
  apply List.filterMap_eq_nil_iff.2
  intro event member
  obtain ⟨note, rfl⟩ := silent event member
  rfl

theorem reports_rejection (printed : List String) (errors : List StaticError)
    (note : Nat → Progress) (verdict : Verdict) :
    RunResult.reports ⟨printed, rejection errors note, verdict⟩ =
      errors.map StaticError.report := by
  simp [RunResult.reports, rejection, List.filterMap_append, List.filterMap_map]

/-- How a session answers a text in which the static check finds the given errors. -/
inductive Answers (limits : Limits) (s : Session) : List StaticError → RunResult × Session → Prop
  | rejected {errors found : List StaticError} {before events : List Event} :
      errors ≠ [] → Silent before → RunResult.reports ⟨[], events, .rejected found⟩ =
        errors.map StaticError.report →
      Answers limits s errors (⟨[], before ++ events, .rejected found⟩, s)
  | ran {program : Program} {bindings : List Binding} {tokens : Nat} {before : List Event} :
      Silent before → Answers limits s [] (s.execute limits program bindings tokens before)

/-- A session answers a text as the static check tells. -/
theorem run_of_check {limits : Limits} (s : Session) {source : String} {errors : List StaticError}
    (checked : check? limits source = some errors) :
    Answers limits s errors (s.run limits source) := by
  have parses := parse?_renumbered limits.nesting 0 s.nextToken source
  simp only [check?, run] at checked ⊢
  generalize parse? limits.nesting 0 (scan source).tokens = here,
    parse? limits.nesting s.nextToken (scan source).tokens = there at parses checked ⊢
  cases parses with
  | none => cases checked
  | @some p p' matched =>
    -- The session numbers the occurrences from elsewhere, which changes neither faults nor heights.
    have reported := syntaxErrors_renumbered (scan source) matched
    have sameFaults := scopeErrors_renumbered (resolve_matched matched.statements)
    have sameHeight := Stmt.allFit_matched matched.statements limits.height
    have sameCount : (syntaxErrors (scan source) p').isEmpty =
        (syntaxErrors (scan source) p).isEmpty := by
      rw [← List.isEmpty_map (f := StaticError.report), reported, List.isEmpty_map]
    simp only [Option.bind_eq_bind, Option.bind_some, resolve?, sameCount, sameHeight]
      at checked ⊢
    have silent : Silent ([.progress (.scanned (scan source).tokens.length)] ++
        [.progress (.parsed p'.statements.length)]) := by
      simp [Silent]
    cases clean : (syntaxErrors (scan source) p).isEmpty with
    | false =>
      simp only [clean] at checked
      obtain rfl := Option.some.inj checked
      refine .rejected ?_ silent ((reports_rejection ..).trans reported)
      intro none
      simp [none] at clean
    | true =>
      simp only [clean, if_true] at checked
      by_cases fits : Stmt.allFit p.statements limits.height = true
      · simp only [fits, if_true, Option.bind_some] at checked ⊢
        obtain rfl := Option.some.inj checked
        simp only [sameFaults]
        cases faults : (resolve p.statements).errors with
        | nil => exact .ran (by simp [Silent])
        | cons error others =>
          exact .rejected (by simp) silent (reports_rejection ..)
      · simp [fits] at checked

/-- A run that starts tells what it told before, and then at most the error that ended it. -/
theorem execute_result (limits : Limits) (s : Session) (program : Program) (bindings : List Binding)
    (tokens : Nat) (before : List Event) :
    ∃ printed outcome, (s.execute limits program bindings tokens before).1 =
      ⟨printed, before ++ Outcome.events outcome, outcome.verdict⟩ :=
  ⟨_, _, rfl⟩

/-! ## Histories -/

/-- What a step shows: the result of a run, and the session after the step. -/
def observe (s : Session) : Step → Option RunResult × Session
  | .run limits source => (some (s.run limits source).1, (s.run limits source).2)
  | .define name value _ => (none, s.define name value)

/-- What the steps of a history show, one after the other. -/
def transcript (s : Session) : List Step → List (Option RunResult × Session)
  | [] => []
  | step :: rest => s.observe step :: (s.step step).transcript rest

theorem transcript_append (s : Session) (earlier later : List Step) :
    s.transcript (earlier ++ later) =
      s.transcript earlier ++ (earlier.foldl step s).transcript later := by
  induction earlier generalizing s with
  | nil => rfl
  | cons first rest inductionHypothesis =>
    simp only [List.cons_append, transcript, inductionHypothesis, List.foldl_cons]

theorem length_transcript (s : Session) (steps : List Step) :
    (s.transcript steps).length = steps.length := by
  induction steps generalizing s with
  | nil => rfl
  | cons first rest inductionHypothesis => simp [transcript, inductionHypothesis]

/-- A step that leaves the session as it was can be left out of a history. -/
theorem transcript_eraseIdx (s : Session) (earlier later : List Step) {idle : Step}
    (unchanged : (earlier.foldl step s).step idle = earlier.foldl step s) :
    (s.transcript (earlier ++ idle :: later)).eraseIdx earlier.length =
      s.transcript (earlier ++ later) := by
  rw [transcript_append, transcript_append, List.eraseIdx_append_of_length_le
    (Nat.le_of_eq (length_transcript s earlier)), length_transcript, Nat.sub_self]
  simp only [transcript, List.eraseIdx_zero, List.tail_cons, unchanged]

/--
A text in which the static check finds errors prints nothing, has just these errors reported, and can be
left out of every history. A text in which it finds none has no static error reported, and one error of
the run just if the run fails.
-/
theorem run_agrees_with_check (clock : Nat → Float) (earlier later : List Step) (limits : Limits)
    (source : String) {errors : List StaticError}
    (checked : check? limits source = some errors) :
    let s := after clock earlier
    let result := (s.run limits source).1
    (errors ≠ [] →
      result.printed = [] ∧ result.reports = errors.map StaticError.report ∧
      result.verdict.hadError = true ∧ result.verdict.hadRuntimeError = false ∧
      (s.run limits source).2 = s ∧
      ((initial clock).transcript (earlier ++ .run limits source :: later)).eraseIdx
        earlier.length = (initial clock).transcript (earlier ++ later)) ∧
    (errors = [] →
      (∀ r ∈ result.reports, ∃ line message, r = .runtime line message) ∧
      result.reports.length ≤ 1 ∧
      (result.verdict.hadRuntimeError = true ↔ result.reports ≠ []) ∧
      result.verdict.hadError = false) := by
  have answers := run_of_check (after clock earlier) checked
  dsimp only
  generalize ended : (after clock earlier).run limits source = answer at answers
  cases answers with
  -- A rejected text leaves the session as it was. One that runs is reported on by its outcome alone.
  | rejected some silent reports =>
    refine ⟨fun _ => ⟨rfl, ?_, rfl, rfl, rfl, ?_⟩, fun none => absurd none some⟩
    · rw [reports_append, silent.reports, reports, List.nil_append]
    · exact transcript_eraseIdx _ earlier later (congrArg Prod.snd ended)
  | @ran program bindings tokens before silent =>
    refine ⟨fun some => absurd rfl some, fun _ => ?_⟩
    obtain ⟨printed, outcome, result⟩ :=
      (after clock earlier).execute_result limits program bindings tokens before
    rw [result, reports_append, silent.reports, List.nil_append]
    cases outcome <;>
      simp [RunResult.reports, Outcome.events, Outcome.verdict, Verdict.hadError,
        Verdict.hadRuntimeError, RuntimeError.report]

/-- A text with a `return` that is in no function. -/
def strayReturn : String := "print a; return;"

/-- The only error in the text. -/
def strayReturnError : StaticError := .scope ⟨.topLevelReturn, ⟨.kwReturn, "return", .nil, 1⟩⟩

theorem run_agrees_with_check_strayReturn :
    let limits : Limits := ⟨60, 60, 60, 60⟩
    let first : Step := .run limits "var a = true;"
    let last : Step := .run limits "print a; print b;"
    let s := after (fun _ => 0) [first]
    check? limits strayReturn = some [strayReturnError] ∧
      (s.run limits strayReturn).1.reports = [strayReturnError].map StaticError.report ∧
      (s.run limits strayReturn).2 = s ∧
      ((initial fun _ => 0).transcript [first, .run limits strayReturn, last]).eraseIdx 1 =
        (initial fun _ => 0).transcript [first, last] ∧
      (s.run limits "print a; print b;").1.reports.length ≤ 1 := by
  intro limits first last s
  have faulty : check? limits strayReturn = some [strayReturnError] := by decide +kernel
  have clean : check? limits "print a; print b;" = some [] := by decide +kernel
  have rejected := run_agrees_with_check (fun _ => 0) [first] [last] limits strayReturn faulty
  have accepted := run_agrees_with_check (fun _ => 0) [first] [] limits "print a; print b;" clean
  obtain ⟨-, reports, -, -, unchanged, erased⟩ := rejected.1 (by simp)
  exact ⟨faulty, reports, unchanged, erased, (accepted.2 rfl).2.1⟩

end Session

end Lox
