import Lox.Proofs.Cursor.Productions
import Lox.Proofs.Grammar.Language

/-!
# Whole walks

On every token list with an end-of-input token the walk over a program yields what the parser yields, and
stops at the first such token with its log in order.
-/

namespace Lox.Cursor

open Grammar (State)

/-- The index of the first end-of-input token. -/
def endIndex (tokens : List Token) : Nat := tokens.findIdx (·.kind == .endOfInput)

/-- The parts of a token list, split at the first end-of-input token. -/
theorem Input.exists_of_ended (start : Nat) {tokens : List Token}
    (ended : ∃ t ∈ tokens, t.kind = .endOfInput) :
    ∃ I : Input, I.start = start ∧ I.tokens = tokens ∧ I.stop = endIndex tokens := by
  induction tokens with
  | nil => simp at ended
  | cons t rest inductionHypothesis =>
    by_cases last : t.kind = .endOfInput
    · exact ⟨⟨start, [], t, rest, nofun, last⟩, rfl, rfl, by simp [endIndex, stop, List.findIdx_cons, last]⟩
    · obtain ⟨I, starts, same, stops⟩ := inductionHypothesis (by simpa [last] using ended)
      refine ⟨⟨start, t :: I.body, I.last, I.rest, ?_, I.ended⟩, rfl, ?_, ?_⟩
      · exact List.forall_mem_cons.2 ⟨last, I.ordinary⟩
      · rw [← same]
        rfl
      · have other : (t.kind == TokenKind.endOfInput) = false := by simpa using last
        rw [endIndex, List.findIdx_cons, other, ← endIndex, ← stops]
        rfl

variable {I : Input}

theorem Input.stands : Stands I (.initial I.start I.tokens) (initial I.start I.tokens) := by
  rw [Input.tokens, State.initial_eq I.ordinary I.ended]
  exact ⟨rfl, rfl, Nat.zero_le _, rfl, rfl, rfl, rfl⟩

theorem Input.sound : Sound I (initial I.start I.tokens) none where
  rising := ⟨by simp [initial], List.pairwise_singleton _ _⟩
  raised := rfl
  apart := .nil
  behind := List.forall_mem_nil _
  pending := fun _ absent => nomatch absent
  attempts := List.forall_mem_nil _

/-! ## The end of the walk -/

/-- A repetition ends with a step that yields nothing. -/
theorem manyFrom_stops {α : Type} {step : Nat → Walk (Option α)} {all : List α} {c' : Cursor}
    (rounds : Nat) : ∀ (count : Nat) (found : List α) (c : Cursor),
    manyFrom step rounds count found c = .ok all c' →
      ∃ count before, step count before = .ok none c' := by
  induction rounds with
  | zero => exact fun _ _ _ => nofun
  | succ rounds inductionHypothesis =>
    intro count found c result
    cases first : step count c with
    | error stop c₁ =>
      rw [manyFrom, bind_error first] at result
      cases result
    | ok last? c₁ =>
      rw [manyFrom, bind_ok first] at result
      cases last? with
      | none =>
        cases result
        exact ⟨count, c, first⟩
      | some a => exact inductionHypothesis _ _ _ result

/-- Looking at the next token leaves the cursor where it is. -/
theorem atEnd_stays {c c' : Cursor} {ended : Bool} (result : atEnd c = .ok ended c') : c' = c := by
  cases here : c.tokens[c.position]? with
  | none =>
    have astray : current c = .error .astray c := by simp only [current, look, here]
    rw [atEnd, bind_error astray] at result
    cases result
  | some t =>
    have looks : current c = .ok ⟨c.start + c.position, t⟩ c := look_ok here
    rw [atEnd, bind_ok looks] at result
    cases result
    rfl

/-- A loop that goes on up to the end stops nowhere else. -/
theorem unlessEnded_stops {α : Type} {p : Walk α} {count : Nat} {c c' : Cursor}
    (result : unlessEnded p count c = .ok none c') : atEnd c' = .ok true c' := by
  unfold unlessEnded at result
  cases looks : atEnd c with
  | error stop c₁ =>
    rw [bind_error looks] at result
    cases result
  | ok ended c₁ =>
    obtain rfl := atEnd_stays looks
    rw [bind_ok looks] at result
    cases ended with
    | true =>
      cases result
      exact looks
    | false =>
      rw [if_neg Bool.false_ne_true] at result
      cases further : p c₁ with
      | error stop c₂ =>
        rw [bind_error further] at result
        cases result
      | ok a c₂ =>
        rw [bind_ok further] at result
        cases result

/-- A walk over a program that yields a result has come to the end. -/
theorem program_ends {depth : Nat} {c : Cursor} {statements : List Stmt} {c' : Cursor}
    (result : program depth c = .ok statements c') : atEnd c' = .ok true c' := by
  unfold program at result
  cases loop : many (unlessEnded (declaration (expression depth) depth)) c with
  | error stop c₁ =>
    rw [bind_error loop] at result
    cases result
  | ok found c₁ =>
    rw [bind_ok loop] at result
    cases result
    obtain ⟨count, before, last⟩ := manyFrom_stops _ _ _ _ loop
    exact unlessEnded_stops last

/-! ## Whole walks -/

/-- The walk has no reason to stop but the end, and there its log is in order. -/
theorem program_walks (start : Nat) {tokens : List Token} (ended : ∃ t ∈ tokens, t.kind = .endOfInput)
    {depth : Nat} (ample : 2 * endIndex tokens + 2 ≤ depth) :
    ∃ (I : Input) (statements : List Stmt) (c : Cursor), I.start = start ∧ I.tokens = tokens ∧
      I.stop = endIndex tokens ∧ program depth (initial start tokens) = .ok statements c ∧
      parse? depth start tokens = some ⟨statements, c.errors⟩ ∧ c.position = I.stop ∧
      Sound I c none := by
  obtain ⟨I, rfl, rfl, stops⟩ := Input.exists_of_ended start ended
  have parses : ∃ parsed, parse? depth I.start I.tokens = some parsed := by
    have same : State.initial I.start I.tokens = State.initial I.start (I.body ++ [I.last]) := by
      rw [Input.tokens, State.initial_eq I.ordinary I.ended, State.initial_eq I.ordinary I.ended]
    unfold parse?
    rw [same]
    rw [← stops] at ample
    exact Grammar.parse?_isSome I.ordinary I.ended ample
  have outcome := program_follows depth _ _ I.stands I.sound
  obtain ⟨parsed, parses⟩ := parses
  have result := parses
  unfold parse? at result
  generalize Grammar.program depth (.initial I.start I.tokens) = r,
    walk : program depth (initial I.start I.tokens) = r' at outcome result
  -- the parser has a result, which leaves no other outcome for the walk
  cases outcome with
  | @ok statements s c stands sound =>
    refine ⟨I, statements, c, rfl, rfl, stops, rfl, ?_, ?_, sound⟩
    · rw [parses, ← result, ← stands.errors]
    · have looks := stands.atEnd.symm.trans (program_ends walk)
      obtain ⟨-, position⟩ | ⟨t, rest, ahead, -⟩ := stands.cases
      · exact position
      · simp [ahead] at looks
  | raised => cases result
  | tooDeep => cases result

end Lox.Cursor
