import Lox.Proofs.Grammar.Unambiguity
import Mathlib.Data.List.TakeDrop
import Mathlib.Data.List.TakeWhile

/-!
# The language of the parser

The parser accepts just the token lists that the grammar derives. A derivation of a token list is the only
one, and the statements that are parsed are its tree.
-/

namespace Lox

namespace Grammar

/-! ## No fault is left over -/

/-- The parser recovers from every fault. -/
def Recovers {α : Type} (p : Parser α) : Prop := ∀ s s', p s ≠ .error .fault s'

section Recovers

variable {α β : Type}

theorem recovers_pure (a : α) : Recovers (pure a) := fun _ _ => nofun

theorem recovers_recovering (p : Parser α) : Recovers (recovering p) := by
  intro s s'
  unfold recovering
  split <;> simp

theorem Recovers.bind {p : Parser α} {f : α → Parser β} (first : Recovers p)
    (second : ∀ a, Recovers (f a)) : Recovers (p >>= f) := by
  intro s s' fault
  cases result : p s with
  | error halt t =>
    rw [bind_error result] at fault
    cases fault
    exact first s s' result
  | ok a t =>
    rw [bind_ok result] at fault
    exact second a t s' fault

theorem recovers_manyFrom {step : Nat → Parser (Option α)} (each : ∀ count, Recovers (step count))
    (fuel count : Nat) (found : List α) : Recovers (manyFrom step fuel count found) := by
  induction fuel generalizing count found with
  | zero => exact recovers_pure _
  | succ fuel inductionHypothesis =>
    apply (each count).bind
    intro result
    cases result with
    | none => exact recovers_pure _
    | some a => exact inductionHypothesis (count + 1) (a :: found)

theorem recovers_declaration (expression : Parser Expr) (depth : Nat) :
    Recovers (declaration expression depth) := by
  cases depth with
  | zero => exact fun _ _ => nofun
  | succ depth =>
    rw [declaration_eq]
    exact recovers_recovering _

theorem recovers_program (depth : Nat) : Recovers (program depth) := by
  have each : ∀ count, Recovers (unlessEnded (declaration (expression depth) depth) count) := by
    intro count
    apply Recovers.bind (fun s s' => nofun : Recovers atEnd)
    intro ended
    cases ended with
    | true => exact recovers_pure none
    | false => exact (recovers_declaration (expression depth) depth).bind fun _ => recovers_pure _
  have all : Recovers (many (unlessEnded (declaration (expression depth) depth))) :=
    fun s => recovers_manyFrom each (s.remaining + 1) 0 [] s
  exact all.bind fun _ => recovers_pure _

end Recovers

/-! ## Whole token lists -/

/-- The tokens before the token that closes the input. -/
def IsBody (body : List Token) : Prop := ∀ t ∈ body, t.kind ≠ .endOfInput

variable {start : Nat} {body : List Token} {last : Token}

/-- What comes after the first end-of-input token makes no difference. -/
theorem State.initial_eq (ordinary : IsBody body) (ended : last.kind = .endOfInput)
    {rest : List Token} :
    State.initial start (body ++ last :: rest) =
      { ahead := body, position := start, last := ⟨start + body.length, last⟩, errors := #[] } := by
  have kept : ∀ t ∈ body, (t.kind != .endOfInput) = true := by
    intro t here
    simpa using ordinary t here
  have taken : (body ++ last :: rest).takeWhile (·.kind != .endOfInput) = body := by
    rw [List.takeWhile_append_of_pos kept]
    simp [ended]
  have dropped : (body ++ last :: rest).dropWhile (·.kind != .endOfInput) = last :: rest := by
    rw [List.dropWhile_append_of_pos kept]
    simp [ended]
  simp [State.initial, List.span_eq_takeWhile_dropWhile, taken, dropped]

variable (start) in
/-- The state before the first token stands before the whole word. -/
theorem State.initial_passes (ordinary : IsBody body) (ended : last.kind = .endOfInput) :
    (State.initial start (body ++ [last])).Counted ∧ ∃ s',
      (State.initial start (body ++ [last])).Passes (numbered start body) s' ∧ s'.Ended := by
  rw [State.initial_eq ordinary ended]
  refine ⟨rfl, ?_⟩
  obtain ⟨s', passes, rest⟩ := State.exists_passes
    (show State.upcoming ⟨body, start, ⟨start + body.length, last⟩, #[]⟩ = numbered start body ++ []
      by simp [State.upcoming])
  refine ⟨s', passes, ?_⟩
  have length := congrArg List.length rest
  simpa [State.upcoming, State.Ended] using length

theorem parse?_sound (ordinary : IsBody body) (ended : last.kind = .endOfInput) {depth : Nat}
    {parsed : Parse} (parses : parse? depth start (body ++ [last]) = some parsed)
    (faultless : parsed.errors = []) :
    Derives .declarations (numbered start body) parsed.statements := by
  obtain ⟨counted, s', passes, all⟩ := State.initial_passes start ordinary ended
  have found := program_finds depth _ counted
  unfold Finds at found
  obtain ⟨t, result, errors⟩ := parse?_eq_some_iff.1 parses
  rw [result] at found
  have unchanged : t.errors.size = (State.initial start (body ++ [last])).errors.size := by
    rw [State.initial_eq ordinary ended]
    simpa using congrArg List.length (errors.trans faultless)
  obtain ⟨w, passes', end', derives⟩ := found.2 unchanged
  -- both words are all that lay ahead
  have same := passes.upcoming.symm.trans passes'.upcoming
  simp only [State.Ended] at all end'
  simp only [State.upcoming, all, end', numbered_nil, List.append_nil] at same
  rwa [same]

theorem parse?_complete (ordinary : IsBody body) (ended : last.kind = .endOfInput)
    (d : Derivation .declarations) (word : d.yield = numbered start body) {depth : Nat}
    {parsed : Parse} (parses : parse? depth start (body ++ [last]) = some parsed) :
    parsed = ⟨d.tree, []⟩ := by
  obtain ⟨counted, s', passes, all⟩ := State.initial_passes start ordinary ended
  obtain ⟨fits, runs⟩ := program_accepts d depth
  rw [← word] at passes
  have run := runs _ s' counted passes all
  unfold parse? at parses
  by_cases fit : fits
  · rw [run.ok fit] at parses
    cases parses
    rw [passes.errors, State.initial_eq ordinary ended]
  · obtain ⟨stop, halts⟩ := run.halts fit
    rw [halts] at parses
    cases parses

theorem parse?_isSome (ordinary : IsBody body) (ended : last.kind = .endOfInput) {depth : Nat}
    (ample : 2 * body.length + 2 ≤ depth) :
    ∃ parsed, parse? depth start (body ++ [last]) = some parsed := by
  obtain ⟨counted, -⟩ := State.initial_passes start ordinary ended
  have found := program_finds depth _ counted
  unfold Finds at found
  unfold parse?
  cases result : program depth (.initial start (body ++ [last])) with
  | ok statements t => exact ⟨_, rfl⟩
  | error halt t =>
    rw [result] at found
    cases halt with
    | fault => exact absurd result (recovers_program depth _ t)
    | tooDeep =>
      rw [State.initial_eq ordinary ended] at found
      simp only at found
      omega

theorem derivation_unique (ordinary : IsBody body) (ended : last.kind = .endOfInput)
    {d d' : Derivation .declarations} (word : d.yield = numbered start body)
    (word' : d'.yield = numbered start body) : d = d' := by
  obtain ⟨counted, s', passes, all⟩ := State.initial_passes start ordinary ended
  have after : Symbol.declarations.After s' := by
    intro t here
    simp only [State.Ended] at all
    simp [all] at here
  have unique : Unique d := d.unique
  apply unique d' _ ⟨counted, s', s', _, after, _, after⟩
  · rwa [word]
  · rwa [word']

end Grammar

open Grammar

/--
A token list that ends with its only end-of-input token is parsed without a fault just if its tokens
derive from the grammar. Then the derivation is the only one, and the statements are its tree.
-/
theorem parse?_iff_derivation (start : Nat) (body : List Token) (last : Token)
    (ordinary : IsBody body) (ended : last.kind = .endOfInput) :
    (∀ depth, 2 * body.length + 2 ≤ depth →
      ∃ parsed, parse? depth start (body ++ [last]) = some parsed) ∧
    ∀ depth parsed, parse? depth start (body ++ [last]) = some parsed →
      (parsed.errors = [] ↔ ∃ d : Derivation .declarations, d.yield = numbered start body) ∧
      ∀ d : Derivation .declarations, d.yield = numbered start body →
        parsed.statements = d.tree ∧
        ∀ d' : Derivation .declarations, d'.yield = numbered start body → d' = d := by
  refine ⟨fun depth ample => parse?_isSome ordinary ended ample, fun depth parsed parses => ⟨?_, ?_⟩⟩
  · constructor
    · intro faultless
      obtain ⟨d, word, -⟩ := parse?_sound ordinary ended parses faultless
      exact ⟨d, word⟩
    · rintro ⟨d, word⟩
      rw [parse?_complete ordinary ended d word parses]
  · intro d word
    rw [parse?_complete ordinary ended d word parses]
    exact ⟨rfl, fun d' word' => derivation_unique ordinary ended word' word⟩

/-- A token as a terminal. -/
def Token.terminal (t : Token) (id : Nat) : Terminal [t.kind] :=
  ⟨⟨id, t⟩, List.mem_singleton.2 rfl⟩

def Token.ofKind (kind : TokenKind) (lexeme : String) : Token := ⟨kind, lexeme, .nil, 1⟩

/-- The tokens of `if (a) if (b) c; else d;`, without the token that closes them. -/
def danglingElse : List Token :=
  [.ofKind .kwIf "if", .ofKind .leftParen "(", .ofKind .identifier "a", .ofKind .rightParen ")",
    .ofKind .kwIf "if", .ofKind .leftParen "(", .ofKind .identifier "b", .ofKind .rightParen ")",
    .ofKind .identifier "c", .ofKind .semicolon ";", .ofKind .kwElse "else",
    .ofKind .identifier "d", .ofKind .semicolon ";"]

namespace Grammar

/-- A name where an expression is expected. -/
def Identifier.derivation (name : Identifier) : Derivation .expression :=
  .plain (.chain (.chain (.chain (.chain (.chain (.chain (.single (.call (.named name) .noSuffix))
    .noOperation) .noOperation) .noOperation) .noOperation) .noOperation) .noOperation)

/-- The `else` belongs to the second `if`. -/
def danglingElseDerivation : Derivation .declarations :=
  .declarations (.statementOnly
    (.ifThen ((Token.ofKind .kwIf "if").terminal 0) ((Token.ofKind .leftParen "(").terminal 1)
      (Identifier.derivation ((Token.ofKind .identifier "a").terminal 2))
      ((Token.ofKind .rightParen ")").terminal 3)
      (.ifElse ((Token.ofKind .kwIf "if").terminal 4) ((Token.ofKind .leftParen "(").terminal 5)
        (Identifier.derivation ((Token.ofKind .identifier "b").terminal 6))
        ((Token.ofKind .rightParen ")").terminal 7)
        (.expressionOnly (.expressionStatement
          (Identifier.derivation ((Token.ofKind .identifier "c").terminal 8))
          ((Token.ofKind .semicolon ";").terminal 9)))
        ((Token.ofKind .kwElse "else").terminal 10)
        (.expressionOnly (.expressionStatement
          (Identifier.derivation ((Token.ofKind .identifier "d").terminal 11))
          ((Token.ofKind .semicolon ";").terminal 12))))))
    .noDeclaration

end Grammar

theorem parse?_iff_derivation_danglingElse :
    ∃ parsed, parse? 28 0 (danglingElse ++ [endToken 1]) = some parsed ∧ parsed.errors = [] ∧
      parsed.statements = danglingElseDerivation.tree ∧
      ∀ d : Derivation .declarations, d.yield = numbered 0 danglingElse →
        d = danglingElseDerivation := by
  have ordinary : IsBody danglingElse := by
    unfold IsBody
    decide
  have word : danglingElseDerivation.yield = numbered 0 danglingElse := rfl
  obtain ⟨total, exact⟩ := parse?_iff_derivation 0 danglingElse (endToken 1) ordinary rfl
  obtain ⟨parsed, parses⟩ := total 28 (by decide)
  obtain ⟨accepted, determined⟩ := exact 28 parsed parses
  obtain ⟨tree, unique⟩ := determined danglingElseDerivation word
  exact ⟨parsed, parses, accepted.2 ⟨_, word⟩, tree, unique⟩

end Lox
