import Lox.Proofs.Grammar.Trees
import Lox.Proofs.Scope.Bindings
import Lox.Proofs.Session.Provenance
import Lox.Proofs.Text.OneLine

/-!
# Diagnostics

Each report of a run is one line of text, but for one kind: a syntax error at a string that goes on over a
line end quotes the string as it stands. So the lines of the output are the diagnostics if and only if no
error is at such a string.
-/

namespace Lox

/-! ## Runtime errors -/

/-- The fault quotes a name in its message. -/
def RuntimeFault.Quotes (fault : RuntimeFault) (name : String) : Prop :=
  fault = .undefinedVariable name ∨ fault = .undefinedProperty name

theorem unaryOperation_unquoted {operator : TokenKind} {operand : Value} {fault : RuntimeFault}
    (fails : unaryOperation operator operand = .error fault) (name : String) : ¬fault.Quotes name := by
  unfold unaryOperation at fails
  split at fails
  · cases fails
  · split at fails <;> cases fails
    simp [RuntimeFault.Quotes]
  · cases fails
    simp [RuntimeFault.Quotes]

theorem binaryOperation_unquoted {operator : TokenKind} {left right : Value} {fault : RuntimeFault}
    (fails : binaryOperation operator left right = .error fault) (name : String) :
    ¬fault.Quotes name := by
  unfold binaryOperation at fails
  split at fails
  · cases fails
  · cases fails
  · split at fails <;> cases fails
    simp [RuntimeFault.Quotes]
  · split at fails
    · unfold numberOperation at fails
      split at fails <;> cases fails
      simp [RuntimeFault.Quotes]
    · cases fails
      simp [RuntimeFault.Quotes]

/-- A name that is quoted is the lexeme of a token of the node, and that token is no string. -/
theorem Node.Raises.quotes {node : Node} {error : RuntimeError} (raises : node.Raises error)
    (wellFormed : node.WellFormed) {name : String} (quotes : error.fault.Quotes name) :
    ∃ t ∈ node.tokens, t.kind ≠ .string ∧ t.lexeme = name := by
  cases raises with
  -- The errors of operators quote nothing.
  | unary _ fails => exact absurd quotes (unaryOperation_unquoted fails name)
  | binary _ _ fails => exact absurd quotes (binaryOperation_unquoted fails name)
  -- Where the name is not found, the token that is quoted is the token of the node.
  | name | assign | superclass | this | get | «class» =>
    obtain ⟨⟨⟩⟩ | ⟨⟨⟩⟩ := quotes
    exact ⟨_, List.mem_cons_self, by rw [wellFormed]; simp, rfl⟩
  | super keyword called =>
    obtain ⟨⟨⟩⟩ | ⟨⟨⟩⟩ := quotes
    exact ⟨called.token, by simp, by rw [wellFormed.2]; simp, rfl⟩
  | notCallable | wrongArity | noProperties | noFields | superclassNotClass =>
    obtain ⟨⟨⟩⟩ | ⟨⟨⟩⟩ := quotes

/-- The message about an error at a node that was read from a text is one line. -/
theorem Node.Read.message_oneLine {node : Node} (read : node.Read) {error : RuntimeError}
    (raises : node.Raises error) : OneLine error.fault.message := by
  refine RuntimeFault.oneLine fun name quotes => ?_
  obtain ⟨t, own, other, rfl⟩ := raises.quotes read.wellFormed quotes
  obtain ⟨source, scanned⟩ := read.scanned t own
  exact scan_oneLine scanned other

/-! ## Static errors -/

/-- The error is at a string that goes on over a line end. -/
def StaticError.AtLongString (e : StaticError) : Prop :=
  ∃ p, e = .parse p ∧ p.place.token.kind = .string ∧ ¬OneLine p.place.token.lexeme

theorem StaticError.atLongString_parse {p : ParseError} :
    (StaticError.parse p).AtLongString ↔
      p.place.token.kind = .string ∧ ¬OneLine p.place.token.lexeme := by
  constructor
  · rintro ⟨_, ⟨⟩, long⟩
    exact long
  · exact fun long => ⟨p, rfl, long⟩

theorem StaticError.text_oneLine {e : StaticError} : OneLine e.text ↔ OneLine e.location := by
  rw [text, report, Report.text, diagnosticText_oneLine, and_iff_left e.message_oneLine]

/-- The token of a subject at which its faults are reported. -/
def Subject.token : Subject → Token
  | .declaration name => name
  | .mention _ m | .superclass _ m => m.token
  | .result keyword _ => keyword

theorem ScopeError.token_of_mem {condition : Prop} [Decidable condition] {fault : ScopeFault}
    {t : Token} {e : ScopeError} (member : e ∈ if condition then [⟨fault, t⟩] else []) : e.token = t := by
  split at member
  · rw [List.mem_singleton.1 member]
  · cases member

theorem Visit.token_of_mem_faults {v : Visit} {e : ScopeError} (member : e ∈ v.faults) :
    e.token = v.subject.token := by
  obtain ⟨subject, place⟩ := v
  unfold faults at member
  cases subject with
  | declaration name =>
    dsimp only at member
    split at member
    · cases member
    · exact ScopeError.token_of_mem member
  | mention form m =>
    cases form with
    | «variable» | this => exact ScopeError.token_of_mem member
    | assignment => cases member
    | super =>
      dsimp only at member
      split at member
      · rw [List.mem_singleton.1 member]; rfl
      · rw [List.mem_singleton.1 member]; rfl
      · cases member
  | superclass className m =>
    obtain member | member := List.mem_append.1 member
    · exact ScopeError.token_of_mem member
    · exact ScopeError.token_of_mem member
  | result keyword hasValue =>
    dsimp only at member
    split at member
    · rw [List.mem_singleton.1 member]; rfl
    · exact ScopeError.token_of_mem member
    · cases member

/-- The resolver looks at names and at keywords, none of which is a string. -/
theorem Subject.Follows.token {rule : Token → Prop} {x : Subject} (follows : x.Follows rule) :
    x.token.kind ≠ .string ∧ rule x.token := by
  have other {kind : TokenKind} (different : kind ≠ .string)
      (known : x.token.kind = kind ∧ rule x.token) : x.token.kind ≠ .string ∧ rule x.token :=
    ⟨known.1 ▸ different, known.2⟩
  cases x with
  | declaration | superclass | result => exact other (by decide) follows
  | mention form =>
    cases form with
    | «variable» | assignment | this | super => exact other (by decide) follows

theorem scopeError_token {depth start : Nat} {source : String} {parsed : Parse}
    (parses : parse? depth start (scan source).tokens = some parsed) :
    ∀ e ∈ (resolve parsed.statements).errors,
      e.token.kind ≠ .string ∧ e.token ∈ (scan source).tokens := by
  intro e member
  rw [resolve_eq, List.mem_flatMap] at member
  obtain ⟨v, visited, member⟩ := member
  have own : ∀ t ∈ (scan source).tokens, t ∈ (scan source).tokens := fun _ there => there
  have taken := parse?_taken own parses
  have among : v.subject ∈ Stmt.allSubjects parsed.statements := by
    rw [← programVisits_subjects]
    exact List.mem_map_of_mem visited
  rw [Visit.token_of_mem_faults member]
  exact (taken.lawful v.subject among).token

/-! ## Runs -/

/-- The reports of a verdict: one for each error. -/
def Verdict.reports : Verdict → List Report
  | .rejected errors => errors.map StaticError.report
  | .failed error => [error.report]
  | .finished | .escaped _ => []

namespace Session

variable {limits : Limits} {s : Session} {source : String}

/-- The errors that reject a text are those of the scan and of the parse, or else those of the resolver. -/
inductive Faulty (limits : Limits) (start : Nat) (source : String) : List StaticError → Prop where
  | syntactic {parsed : Parse} (parses : parse? limits.nesting start (scan source).tokens = some parsed) :
      Faulty limits start source (syntaxErrors (scan source) parsed)
  | resolved {parsed : Parse} (parses : parse? limits.nesting start (scan source).tokens = some parsed) :
      Faulty limits start source ((resolve parsed.statements).errors.map .scope)

theorem run_reports (limits : Limits) (s : Session) (source : String) :
    (s.run limits source).1.reports = (s.run limits source).1.verdict.reports ∧
      ∀ errors, (s.run limits source).1.verdict = .rejected errors →
        Faulty limits s.nextToken source errors := by
  unfold run
  dsimp only
  cases parses : parse? limits.nesting s.nextToken (scan source).tokens with
  | none => exact ⟨rfl, by rintro _ ⟨⟩⟩
  | some parsed =>
    have silent : Silent ([.progress (.scanned (scan source).tokens.length)] ++
        [.progress (.parsed parsed.statements.length)]) := by
      simp [Silent]
    dsimp only
    split
    · -- syntax errors reject the text before the resolver looks at it
      refine ⟨?_, by rintro _ ⟨⟩; exact .syntactic parses⟩
      rw [reports_append, silent.reports, List.nil_append, reports_rejection]
      rfl
    · cases resolves : resolve? limits.height parsed.statements with
      | none => exact ⟨silent.reports _ _, by rintro _ ⟨⟩⟩
      | some resolution =>
        have resolved : resolution = resolve parsed.statements := by
          unfold resolve? at resolves
          split at resolves <;> cases resolves
          rfl
        dsimp only
        split
        · -- the resolver rejects it
          refine ⟨?_, by rintro _ ⟨⟩; exact resolved ▸ .resolved parses⟩
          rw [reports_append, silent.reports, List.nil_append, reports_rejection]
          rfl
        · -- a program that runs has been told of in notes only
          obtain ⟨printed, outcome, result⟩ := s.execute_result limits parsed.statements
            resolution.bindings ((scan source).tokens.length - 1)
            ([.progress (.scanned (scan source).tokens.length)] ++
              [.progress (.parsed parsed.statements.length)] ++
              [.progress (.resolved resolution.bindings.length)])
          rw [result, reports_append, (by simp [Silent] : Silent _).reports, List.nil_append]
          cases outcome with
          | finished | failed | escaped => exact ⟨rfl, by rintro _ ⟨⟩⟩

/-- Of the errors that reject a text, those at strings over several lines are not rendered on one line. -/
theorem Faulty.oneLine {start : Nat} {errors : List StaticError}
    (faulty : Faulty limits start source errors) : ∀ e ∈ errors, OneLine e.text ↔ ¬e.AtLongString := by
  have plain {e : StaticError} (single : OneLine e.location) (other : ∀ p, e ≠ .parse p) :
      OneLine e.text ↔ ¬e.AtLongString := by
    refine iff_of_true (StaticError.text_oneLine.2 single) ?_
    rintro ⟨p, same, -⟩
    exact other p same
  cases faulty with
  | syntactic parses =>
    intro e member
    obtain member | member := List.mem_append.1 member
    · obtain ⟨fault, -, rfl⟩ := List.mem_map.1 member
      exact plain (by decide : OneLine "") (by rintro _ ⟨⟩)
    · obtain ⟨p, here, rfl⟩ := List.mem_map.1 member
      rw [StaticError.text_oneLine, StaticError.atLongString_parse]
      exact (location_oneLine (parse?_places parses p here)).trans (by rw [not_and, not_not])
  -- The resolver never reports at a string.
  | resolved parses =>
    intro e member
    obtain ⟨fault, here, rfl⟩ := List.mem_map.1 member
    obtain ⟨other, scanned⟩ := scopeError_token parses fault here
    exact plain ((location_oneLine scanned).2 fun string => absurd string other) (by rintro _ ⟨⟩)

/-- The error that ends a run is reported on one line. -/
theorem failed_oneLine {clock : Nat → Float} {earlier : List Step} {error : RuntimeError}
    (failed : ((after clock earlier).run limits source).1.verdict = .failed error) :
    OneLine error.report.text := by
  have plain := (after clock earlier).run_eq limits source
  cases accepted : (after clock earlier).accepted? limits source with
  | none =>
    rw [accepted, failed] at plain
    obtain ⟨-, ⟨errors, ⟨⟩⟩ | ⟨⟨⟩⟩⟩ := plain
  | some program =>
    rw [accepted, failed] at plain
    obtain ⟨-, ended, -⟩ := plain
    -- the outcome of the program is the failure
    have outcome : (interpret limits.loops limits.depth program
        ((after clock earlier).start program)).1 = .failed error := by
      generalize (interpret limits.loops limits.depth program _).1 = outcome at ended
      cases outcome <;> cases ended
      rfl
    have read := (accepted?_eq_some_iff.1 accepted).read
    have code : ((after clock earlier).start program).heap.CodeOf Node.Read := after_read clock earlier
    obtain ⟨node, here, raises⟩ := (interpret_by limits.loops limits.depth read code).2 error outcome
    exact diagnosticText_oneLine.2 ⟨by decide, here.message_oneLine raises⟩

end Session

/--
Each run reports its errors in their order, each as a line of text but for the syntax errors at strings that
go on over a line end. So the lines of the output are the diagnostics, one by one, if and only if there is no
such error; and there is none in a text whose strings are each on one line.
-/
theorem reports_by_line (clock : Nat → Float) (earlier : List Session.Step) (limits : Limits)
    (source : String) :
    let result := ((Session.after clock earlier).run limits source).1
    result.reports = result.verdict.reports ∧
    (∀ errors, result.verdict = .rejected errors → ∀ e ∈ errors, OneLine e.text ↔ ¬e.AtLongString) ∧
    (∀ error, result.verdict = .failed error → OneLine error.report.text) ∧
    (Text.lines (textOfLines (result.reports.map Report.text)).toList =
        result.reports.map (fun report => report.text.toList) ↔
      ∀ errors, result.verdict = .rejected errors → ∀ e ∈ errors, ¬e.AtLongString) ∧
    ((∀ t ∈ (scan source).tokens, t.kind = .string → OneLine t.lexeme) →
      ∀ errors, result.verdict = .rejected errors → ∀ e ∈ errors, ¬e.AtLongString) := by
  intro result
  obtain ⟨reports, faulty⟩ := (Session.after clock earlier).run_reports limits source
  have rendered : ∀ errors, result.verdict = .rejected errors → ∀ e ∈ errors,
      OneLine e.text ↔ ¬e.AtLongString := fun errors rejected => (faulty errors rejected).oneLine
  have failed : ∀ error, result.verdict = .failed error → OneLine error.report.text :=
    fun error => Session.failed_oneLine
  refine ⟨reports, rendered, failed, ?_, ?_⟩
  · -- The lines can be told apart if each report is one line, and what is reported is the verdict's.
    rw [← Function.comp_def String.toList Report.text, ← List.map_map, lines_textOfLines, reports]
    cases ended : result.verdict with
    | rejected errors =>
      have each : (∀ text ∈ (Verdict.rejected errors).reports.map Report.text, OneLine text) ↔
          ∀ e ∈ errors, OneLine e.text := by
        simp only [Verdict.reports, List.map_map, List.forall_mem_map]
        rfl
      rw [each, forall₂_congr (rendered errors ended)]
      exact ⟨fun none => by rintro _ ⟨⟩; exact none, fun none => none errors rfl⟩
    | failed error =>
      refine iff_of_true ?_ (by rintro _ ⟨⟩)
      simpa only [Verdict.reports, List.map_singleton, List.forall_mem_singleton] using failed error ended
    | finished | escaped => exact iff_of_true (fun text member => by cases member) (by rintro _ ⟨⟩)
  · -- A parse error is at a token of the text, so its string is one of those that are short.
    intro short errors rejected e member
    cases faulty errors rejected with
    | syntactic parses =>
      rintro ⟨p, rfl, string, long⟩
      obtain member | member := List.mem_append.1 member
      · obtain ⟨_, -, ⟨⟩⟩ := List.mem_map.1 member
      · obtain ⟨_, here, ⟨⟩⟩ := List.mem_map.1 member
        exact long (short _ (parse?_places parses p here) string)
    | resolved =>
      obtain ⟨_, -, rfl⟩ := List.mem_map.1 member
      rintro ⟨_, ⟨⟩, -⟩

/-- The string is quoted whole, so its report goes on over a second line. -/
example : (check? ⟨60, 60, 60, 60⟩ "1 \"a\nb\";").map (fun errors => errors.map StaticError.text) =
    some ["[line 2] Error at '\"a\nb\"': Expect ';' after expression."] := by
  decide +kernel

end Lox
