import Lox.Grammar.Statement

/-!
# The tokens that lie ahead of a parser

What a parser has still to read, as occurrences: each token with its number. And a parse has a result
just if the parser of programs has one on all tokens.
-/

namespace Lox

theorem parse?_eq_some_iff {depth start : Nat} {tokens : List Token} {parsed : Parse} :
    parse? depth start tokens = some parsed ↔
      ∃ s, Grammar.program depth (.initial start tokens) = .ok parsed.statements s ∧
        s.errors.toList = parsed.errors := by
  obtain ⟨statements, errors⟩ := parsed
  unfold parse?
  cases Grammar.program depth (.initial start tokens) with
  | ok found s => simp [and_assoc]
  | error halt s => simp

namespace Grammar

/-- The occurrences of tokens that are numbered from `start` on. -/
def numbered : (start : Nat) → List Token → List Occurrence
  | _, [] => []
  | start, t :: rest => ⟨start, t⟩ :: numbered (start + 1) rest

@[simp] theorem numbered_nil (start : Nat) : numbered start [] = [] := rfl

@[simp] theorem numbered_cons (start : Nat) (t : Token) (rest : List Token) :
    numbered start (t :: rest) = ⟨start, t⟩ :: numbered (start + 1) rest := rfl

@[simp] theorem length_numbered (start : Nat) (ts : List Token) :
    (numbered start ts).length = ts.length := by
  induction ts generalizing start with
  | nil => rfl
  | cons t rest inductionHypothesis => simp [inductionHypothesis]

theorem numbered_append (start : Nat) (ts us : List Token) :
    numbered start (ts ++ us) = numbered start ts ++ numbered (start + ts.length) us := by
  induction ts generalizing start with
  | nil => simp
  | cons t rest inductionHypothesis =>
    simp [inductionHypothesis, Nat.add_assoc, Nat.add_comm 1]

/-- The tokens that lie ahead, numbered. -/
def State.upcoming (s : State) : List Occurrence := numbered s.position s.ahead

end Grammar

end Lox
