import Lox.Proofs.Matching.Evaluation
import Lox.Proofs.Scope.Bindings
import Lox.Proofs.Session.Clean

/-!
# Programs in pieces

A text runs after another one as it does below it in one text. The functions of earlier texts are the
same in both runs, and those of the text itself have their tokens on later lines. So an error is
reported further down just if it occurs at a token of the text itself. The number of the token tells
that: a session goes on counting, and never gives a number twice.
-/

namespace Lox

namespace Session

/-! ## Where functions come from -/

/-- The tokens that a step reads. -/
def Step.tokens : Step → List Token
  | .run _ source => (scan source).tokens
  | .define _ _ _ => []

/-- Every function of the session comes from the texts, and its tokens have been numbered. -/
def Owns (s : Session) (texts : List Token) : Prop :=
  s.machine.heap.Matched (.moved 0 texts (·.id < s.nextToken)) s.machine.heap

theorem nextToken_close (s : Session) (source : String) (machine : Machine) :
    (s.close source machine).nextToken = s.nextToken + (textTokens source).length := by
  rw [close, scan_tokens, List.length_append]
  rfl

theorem owns_initial (clock : Nat → Float) : (initial clock).Owns [] where
  environments := rfl
  natives := rfl
  classes := rfl
  instances := rfl
  size := rfl
  functions := fun _ => ⟨rfl, rfl, .nil, rfl, rfl⟩

theorem Owns.more {s : Session} {texts texts' : List Token} (owns : s.Owns texts)
    (more : ∀ t ∈ texts, t ∈ texts') : s.Owns texts' :=
  Heap.Matched.mono (Matching.moved_le more fun _ earlier => earlier) owns

theorem Owns.run {s : Session} {texts : List Token} (owns : s.Owns texts) {limits : Limits}
    {source : String} {program : Program}
    (clean : Clean limits s.nextToken source program) :
    (s.close source (interpret limits.loops limits.depth program (s.start program)).2).Owns
      (texts ++ (scan source).tokens) := by
  have older : ∀ o : Occurrence, o.id < s.nextToken →
      o.id < s.nextToken + (textTokens source).length := fun _ => Nat.lt_add_right _
  -- The program is matched with itself, by the tokens of its own text and of the earlier ones.
  let K : Pairing :=
    { matching := .moved 0 (texts ++ (scan source).tokens)
        (·.id < s.nextToken + (textTokens source).length)
      distances := (s.start program).distances
      distances' := (s.start program).distances
      agree := by
        rintro o _ ⟨-, -, rfl⟩
        rfl
      before := #[] }
  have trees : List.Forall₂ (Stmt.Matched K.matching) program program :=
    Stmt.matched_mono (Matching.moved_le (fun _ => List.mem_append_right _)
      fun _ => OccursIn.bound) clean.own
  have heap : s.machine.heap.Matched K.matching s.machine.heap :=
    Heap.Matched.mono (Matching.moved_le (fun _ => List.mem_append_left _) older) owns
  have machines : (s.start program).Matched K (s.start program) :=
    ⟨heap, rfl, rfl, rfl, rfl, rfl, rfl, rfl⟩
  have ended := (interpret_matched limits.loops limits.depth trees machines).2.heap
  rw [Owns, nextToken_close]
  exact ended

theorem Owns.step {s : Session} {texts : List Token} (owns : s.Owns texts) (next : Step) :
    (s.step next).Owns (texts ++ next.tokens) := by
  cases next with
  | define name value scalar =>
    exact (Heap.Matched.define owns s.machine.globals name value).mono
      (Matching.moved_le (fun _ => List.mem_append_left _) fun _ earlier => earlier)
  | run limits source =>
    rw [Session.step]
    cases accepted : s.accepted? limits source with
    | none =>
      rw [run_rejected accepted]
      exact owns.more fun _ => List.mem_append_left _
    | some program =>
      rw [(run_accepted accepted).1]
      exact owns.run (accepted?_eq_some_iff.1 accepted)

/-- After any history, the functions of a session come from the texts that were run. -/
theorem owns_after (clock : Nat → Float) (steps : List Step) :
    (after clock steps).Owns (steps.flatMap Step.tokens) := by
  induction steps using List.reverseRecOn with
  | nil => exact owns_initial clock
  | append_singleton steps last inductionHypothesis =>
    rw [after_concat, List.flatMap_append, List.flatMap_singleton]
    exact inductionHypothesis.step last

/-! ## What a run reports -/

end Session

/-- The report of the error that ended a run. -/
def Verdict.report? : Verdict → Option Report
  | .failed error => some error.report
  | _ => none

/-- The occurrence once the tokens numbered from `start` on stand some lines further down. -/
def Occurrence.below (start lines : Nat) (o : Occurrence) : Occurrence :=
  if start ≤ o.id then ⟨o.id, o.token.down lines⟩ else o

/--
How a text ends below another one, given how it ends after it, with its own tokens numbered from
`start` on. An error at one of these is further down; an error at an older token stays where it is.
-/
def Verdict.below (start lines : Nat) : Verdict → Verdict
  | .failed error => .failed ⟨error.fault, error.occurrence.below start lines⟩
  | verdict => verdict

/-- The number of an error's token says where it occurs: in the text itself, or in an older one. -/
def Verdict.Places (source : String) (start : Nat) (older : List Token) : Verdict → Prop
  | .failed error =>
    OccursIn source start error.occurrence ∨ (error.occurrence.id < start ∧ error.token ∈ older)
  | _ => True

theorem Outcome.finished_of_verdict {outcome : Outcome} (finished : outcome.verdict = .finished) :
    outcome = .finished := by
  cases outcome with
  | finished => rfl
  | failed | escaped => cases finished

theorem Outcome.Matched.finishes {M : Matching} {outcome : Outcome}
    (matched : Outcome.Matched M .finished outcome) : outcome = .finished := by
  cases matched
  rfl

namespace Session

theorem reports_of_check {limits : Limits} {source : String} (checked : check? limits source = some [])
    (s : Session) :
    (s.run limits source).1.reports = (s.run limits source).1.verdict.report?.toList := by
  have answers := s.run_of_check checked
  generalize s.run limits source = answer at answers
  cases answers with
  | rejected some => exact absurd rfl some
  | @ran program bindings tokens before silent =>
    obtain ⟨printed, outcome, result⟩ := s.execute_result limits program bindings tokens before
    rw [result, reports_append, silent.reports, List.nil_append]
    cases outcome <;> rfl

/-! ## Two texts -/

/-- The global names and their values. -/
def globalTable (s : Session) : Table Value :=
  (s.machine.heap.environmentAt s.machine.globals).names

/-- The same session up to the texts of the functions, which match. -/
structure Matched (M : Matching) (s s' : Session) : Prop where
  heap : s.machine.heap.Matched M s'.machine.heap
  globals : s'.machine.globals = s.machine.globals
  current : s'.machine.current = s.machine.current
  distances : s'.machine.distances = s.machine.distances
  printed : s'.machine.printed = s.machine.printed
  clock : s'.machine.clock = s.machine.clock
  readings : s'.machine.readings = s.machine.readings
  nextToken : s'.nextToken = s.nextToken

theorem Matched.globalTable {M : Matching} {s s' : Session} (matched : s.Matched M s') :
    s'.globalTable = s.globalTable := by
  rw [Session.globalTable, Session.globalTable, matched.globals,
    Heap.environmentAt_congr matched.heap.environments]

section Pieces

variable {s : Session} {limits : Limits} {first second : String} {program program' below : Program}

theorem addAll_matched {M : Matching} (same : ∀ o o', M.occurrences o o' → o'.id = o.id)
    {bindings bindings' : List Binding}
    (matched : List.Forall₂ (Binding.Matched M) bindings bindings') (D : Distances) :
    D.addAll bindings' = D.addAll bindings := by
  induction matched generalizing D with
  | nil => rfl
  | @cons b b' _ _ related _ inductionHypothesis =>
    simp only [Distances.addAll, List.foldl_cons, related.distance,
      same _ _ related.mention] at inductionHypothesis ⊢
    exact inductionHypothesis _

theorem bindings_later {lines start : Nat} {texts : List Token}
    (trees : List.Forall₂ (Stmt.Matched (.moved lines texts (OccursIn second start)))
      program' below) :
    ∀ b ∈ (resolve below).bindings, start ≤ b.mention.id := by
  have bindings := (resolve_matched trees).bindings
  generalize (resolve program').bindings = found, (resolve below).bindings = found' at bindings
  induction bindings with
  | nil => simp
  | @cons b b' _ _ related _ inductionHypothesis =>
    obtain ⟨known, -, same⟩ := related.mention
    refine List.forall_mem_cons.2 ⟨?_, inductionHypothesis⟩
    rw [same]
    exact known.1

/-- The functions of older texts and those of the first text, which keep their lines. -/
abbrev kept (s : Session) (texts : List Token) (first : String) : Matching :=
  .moved 0 (texts ++ (scan first).tokens) (·.id < s.nextToken + (textTokens first).length)

/-- The functions of the second text, whose lines are further down below the first one. -/
abbrev lowered (s : Session) (first second : String) : Matching :=
  .moved (linesBefore first) (scan second).tokens
    (OccursIn second (s.nextToken + (textTokens first).length))

theorem start_append_distances (s : Session) (program below : Program) :
    (s.start (program ++ below)).distances =
      (s.start program).distances.addAll (resolve below).bindings := by
  simp only [start, Machine.addDistances, resolve_append, Distances.addAll, List.foldl_append]

variable (loops depth : Nat) {texts : List Token}

/-- While the first text runs, it makes no difference that the second one stands below. -/
theorem first_runs (owns : s.Owns texts) (clean : Clean limits s.nextToken first program)
    (later : ∀ b ∈ (resolve below).bindings,
      s.nextToken + (textTokens first).length ≤ b.mention.id) :
    let alone := interpret loops depth program (s.start program)
    let joined := interpret loops depth program (s.start (program ++ below))
    alone.1.Matched (s.kept texts first) joined.1 ∧
      ∃ agree, alone.2.Matched ⟨s.kept texts first, (s.start program).distances,
        (s.start (program ++ below)).distances, agree, #[]⟩ joined.2 := by
  -- The second text numbers its occurrences above all that the first one can mention.
  have agree : ∀ o o', (s.kept texts first).occurrences o o' →
      (s.start (program ++ below)).distances.find? o'.id =
        (s.start program).distances.find? o.id := by
    rintro o _ ⟨known, -, rfl⟩
    rw [start_append_distances]
    refine Distances.find?_addAll_of_absent fun b member same => ?_
    have bound := later b member
    change b.mention.id = o.id at same
    omega
  have older : ∀ o : Occurrence, o.id < s.nextToken →
      o.id < s.nextToken + (textTokens first).length := fun _ => Nat.lt_add_right _
  have trees : List.Forall₂ (Stmt.Matched (s.kept texts first)) program program :=
    Stmt.matched_mono (Matching.moved_le (fun _ => List.mem_append_right _)
      fun _ => OccursIn.bound) clean.own
  have heap : s.machine.heap.Matched (s.kept texts first) s.machine.heap :=
    Heap.Matched.mono (Matching.moved_le (fun _ => List.mem_append_left _) older) owns
  have machines : (s.start program).Matched ⟨s.kept texts first, _, _, agree, #[]⟩
      (s.start (program ++ below)) := ⟨heap, rfl, rfl, rfl, rfl, rfl, rfl, rfl⟩
  obtain ⟨outcomes, machines⟩ := interpret_matched loops depth trees machines
  exact ⟨outcomes, agree, machines⟩

/-- Below the first text, the second one runs as it does after it. -/
theorem second_runs {alone joined : Machine} {agree}
    (machines : alone.Matched ⟨s.kept texts first, (s.start program).distances,
      (s.start (program ++ below)).distances, agree, #[]⟩ joined)
    (trees : List.Forall₂ (Stmt.Matched (s.lowered first second)) program' below) :
    let after := interpret loops depth program' ((s.close first alone).start program')
    let whole := interpret loops depth below joined
    after.1.Matched ((s.kept texts first).either (s.lowered first second)) whole.1 ∧
      ∃ agree, after.2.Matched ⟨(s.kept texts first).either (s.lowered first second),
        (s.start (program ++ below)).distances, (s.start (program ++ below)).distances, agree,
        alone.printed⟩ whole.2 := by
  have sameId : ∀ o o', ((s.kept texts first).either (s.lowered first second)).occurrences o o' →
      o'.id = o.id := by
    rintro o _ (⟨-, -, rfl⟩ | ⟨-, -, rfl⟩) <;> rfl
  have agree : ∀ o o', ((s.kept texts first).either (s.lowered first second)).occurrences o o' →
      (s.start (program ++ below)).distances.find? o'.id =
        (s.start (program ++ below)).distances.find? o.id := by
    intro o o' mentions
    rw [sameId o o' mentions]
  have bindings := (resolve_matched trees).bindings
  -- Alone the programs add their distances in turn, joined they add them at once.
  have distances := calc ((s.close first alone).start program').distances
    _ = alone.distances.addAll (resolve program').bindings := rfl
    _ = (s.start program).distances.addAll (resolve program').bindings :=
      congrArg (Distances.addAll · _) machines.distances
    _ = (s.start program).distances.addAll (resolve below).bindings :=
      (addAll_matched (fun o o' mentions => sameId o o' (.inr mentions)) bindings _).symm
    _ = (s.start (program ++ below)).distances := (s.start_append_distances program below).symm
  have printed : joined.printed = alone.printed ++ #[] := by
    rw [machines.printed, Array.append_empty, Array.empty_append]
  have start : ((s.close first alone).start program').Matched
      ⟨(s.kept texts first).either (s.lowered first second), _, _, agree, alone.printed⟩ joined :=
    ⟨machines.heap.mono (Matching.le_left _ _), machines.globals, machines.current, distances,
      machines.distances', printed, machines.clock, machines.readings⟩
  obtain ⟨outcomes, ended⟩ :=
    interpret_matched loops depth (Stmt.matched_mono (Matching.le_right _ _) trees) start
  exact ⟨outcomes, agree, ended⟩

end Pieces

theorem verdict_below {s : Session} {texts : List Token} {first second : String}
    {outcome outcome' : Outcome}
    (matched : outcome.Matched ((s.kept texts first).either (s.lowered first second)) outcome') :
    outcome'.verdict =
        outcome.verdict.below (s.nextToken + (textTokens first).length) (linesBefore first) ∧
      outcome.verdict.Places second (s.nextToken + (textTokens first).length)
        (texts ++ (scan first).tokens) := by
  cases matched with
  | finished | escaped escape => exact ⟨rfl, trivial⟩
  | @failed error error' related =>
    obtain ⟨fault, o⟩ := error
    obtain ⟨fault', o'⟩ := error'
    obtain rfl : fault' = fault := related.fault
    -- The tokens of the second text have the numbers from there on, all others smaller ones.
    rcases related.occurrence with ⟨earlier, member, here⟩ | ⟨own, -, here⟩
    · obtain rfl : o' = o := here.trans (by rw [o.token.down_zero])
      refine ⟨?_, .inr ⟨earlier, member⟩⟩
      simp [Outcome.verdict, Verdict.below, Occurrence.below, Nat.not_le.2 earlier]
    · obtain rfl : o' = ⟨o.id, o.token.down (linesBefore first)⟩ := here
      refine ⟨?_, .inl own⟩
      simp [Outcome.verdict, Verdict.below, Occurrence.below, own.1]

theorem run_of_clean {limits : Limits} {s : Session} {source : String} {program : Program}
    (clean : Clean limits s.nextToken source program) :
    let ended := interpret limits.loops limits.depth program (s.start program)
    (s.run limits source).2 = s.close source ended.2 ∧
      (s.run limits source).1.verdict = ended.1.verdict ∧
      (s.run limits source).1.printed = ended.2.printed.toList :=
  run_accepted (accepted?_eq_some_iff.2 clean)

/--
If the run of a clean text finishes, then a clean text after it prints, ends and leaves behind what it
does below it in one text, up to the lines of its own tokens.
-/
theorem run_joined (clock : Nat → Float) (earlier : List Step) (limits : Limits)
    (first second : String) (checked : check? limits first = some [])
    (checked' : check? limits second = some [])
    (finished : ((after clock earlier).run limits first).1.verdict = .finished) :
    let s := after clock earlier
    let one := s.run limits first
    let two := one.2.run limits second
    let whole := s.run limits (first ++ "\n" ++ second)
    let older := earlier.flatMap Step.tokens ++ (scan first).tokens
    check? limits (first ++ "\n" ++ second) = some [] ∧
      whole.1.printed = one.1.printed ++ two.1.printed ∧
      whole.1.verdict = two.1.verdict.below one.2.nextToken (linesBefore first) ∧
      two.1.verdict.Places second one.2.nextToken older ∧
      (one.1.reports = [] ∧ two.1.reports = two.1.verdict.report?.toList ∧
        whole.1.reports = whole.1.verdict.report?.toList) ∧
      whole.2.globalTable = two.2.globalTable ∧
      two.2.Matched ((s.kept (earlier.flatMap Step.tokens) first).either (s.lowered first second))
        whole.2 := by
  intro s one two whole older
  have owns : s.Owns (earlier.flatMap Step.tokens) := owns_after clock earlier
  obtain ⟨_, clean⟩ := check?_eq_nil_iff.1 checked
  obtain ⟨_, clean'⟩ := check?_eq_nil_iff.1 checked'
  obtain ⟨program, clean⟩ := clean.renumber s.nextToken
  obtain ⟨program', clean'⟩ := clean'.renumber (s.nextToken + (textTokens first).length)
  obtain ⟨below, joined, trees⟩ := clean.join clean'
  have checkedWhole := check?_join checked checked'
  have reports := reports_of_check checked s
  have reports' := reports_of_check checked' one.2
  have reportsWhole := reports_of_check checkedWhole s
  -- the first text, alone and with the second one below it
  obtain ⟨closed, verdict, printed⟩ := run_of_clean clean
  obtain ⟨outcomes, agree, machines⟩ :=
    first_runs limits.loops limits.depth owns clean (bindings_later trees)
  have finishes := Outcome.finished_of_verdict (verdict.symm.trans finished)
  rw [finishes] at outcomes
  have finishes' := outcomes.finishes
  -- the second text, after the first one and below it
  have clean' : Clean limits one.2.nextToken second program' := by
    rw [closed, nextToken_close]
    exact clean'
  obtain ⟨closed', verdict', printed'⟩ := run_of_clean clean'
  obtain ⟨closedWhole, verdictWhole, printedWhole⟩ := run_of_clean joined
  rw [interpret_append finishes'] at closedWhole verdictWhole printedWhole
  change two.2 = _ at closed'
  change two.1.verdict = _ at verdict'
  change two.1.printed = _ at printed'
  rw [closed] at closed' verdict' printed'
  obtain ⟨outcomes', agree', machines'⟩ :=
    second_runs limits.loops limits.depth machines trees
  have matched : two.2.Matched
      ((s.kept (earlier.flatMap Step.tokens) first).either (s.lowered first second)) whole.2 := by
    have tokens : (textTokens (first ++ "\n" ++ second)).length =
        (textTokens first).length + (textTokens second).length := by
      rw [textTokens_join clean.scanned, List.length_append, List.length_map]
    change whole.2 = _ at closedWhole
    rw [closed', closedWhole]
    refine ⟨machines'.heap, machines'.globals, machines'.current, ?_, rfl, machines'.clock,
      machines'.readings, ?_⟩
    · exact machines'.distances'.trans machines'.distances.symm
    · rw [nextToken_close, nextToken_close, nextToken_close, tokens, Nat.add_assoc]
  have start : one.2.nextToken = s.nextToken + (textTokens first).length := by
    rw [closed, nextToken_close]
  obtain ⟨moves, places⟩ := verdict_below outcomes'
  rw [← start, ← verdict'] at moves places
  refine ⟨checkedWhole, ?_, verdictWhole.trans moves, places, ⟨?_, reports', reportsWhole⟩,
    matched.globalTable, matched⟩
  · rw [printedWhole, machines'.printed, printed, printed', Array.toList_append]
  · rw [reports, finished]
    rfl

/-- A function whose call fails. -/
def failing : String := "fun f() \x7b return -nil; \x7d"

/-- The same token value fails in the function, which stays, and in the text below, which moves. -/
theorem run_joined_failing :
    let limits : Limits := ⟨60, 60, 60, 60⟩
    let s := after (fun _ => 0) [.run limits "var a = true;"]
    let one := s.run limits failing
    let two := fun second => (one.2.run limits second).1
    let whole := fun second => (s.run limits (failing ++ "\n" ++ second)).1
    (∀ second ∈ ["print a; f();", "print -nil;"],
      (whole second).printed = one.1.printed ++ (two second).printed ∧
        (whole second).verdict =
          (two second).verdict.below one.2.nextToken (linesBefore failing)) ∧
      (two "print a; f();").reports = [.runtime 1 "Operand must be a number."] ∧
      (whole "print a; f();").reports = [.runtime 1 "Operand must be a number."] ∧
      (two "print -nil;").reports = [.runtime 1 "Operand must be a number."] ∧
      (whole "print -nil;").reports = [.runtime 2 "Operand must be a number."] := by
  refine ⟨fun second member => ?_, by decide +kernel⟩
  have clean : ∀ second ∈ ["print a; f();", "print -nil;"],
      check? ⟨60, 60, 60, 60⟩ second = some [] := by decide +kernel
  have joined := run_joined (fun _ => 0) [.run ⟨60, 60, 60, 60⟩ "var a = true;"] ⟨60, 60, 60, 60⟩
    failing second (by decide +kernel) (clean second member) (by decide +kernel)
  exact ⟨joined.2.1, joined.2.2.1⟩

/-- The error of a call is reported where the function stands, and not further down with the call. -/
theorem runtime_report_not_below :
    let limits : Limits := ⟨60, 60, 60, 60⟩
    let s := initial fun _ => 0
    let one := s.run limits failing
    let two := one.2.run limits "f();"
    let whole := s.run limits (failing ++ "\n" ++ "f();")
    check? limits failing = some [] ∧ check? limits "f();" = some [] ∧
      one.1.verdict = .finished ∧
      two.1.reports = [.runtime 1 "Operand must be a number."] ∧
      whole.1.reports ≠ [.runtime (1 + linesBefore failing) "Operand must be a number."] ∧
      whole.1.reports = two.1.reports := by
  decide +kernel

end Session

end Lox
