import Lox.Proofs.Cursor.Runs

/-!
# The parser ends and stays within the tokens

Whatever the tokens are, and in whatever order, a parse comes to the first end-of-input token and to nothing
behind it. It never reads outside of the token list, and each of its loops ends.
-/

namespace Lox

open Cursor (Precedes endIndex initial)

/-- What the log of a whole walk over the tokens looks like. -/
structure Cursor.Orderly (start : Nat) (tokens : List Token) (c : Cursor) : Prop where
  /-- The walk ends at the first end-of-input token. -/
  ends : c.position = endIndex tokens
  /-- It never goes back. -/
  rising : c.visited.Pairwise (· ≤ ·)
  bounded : ∀ k ∈ c.visited, k ≤ endIndex tokens
  /-- Each declaration begins before the end and reads a token. -/
  progress : ∀ a ∈ c.attempts, a.first < endIndex tokens ∧ a.first < a.last
  /-- A declaration without a result has noted a fault. -/
  told : ∀ a ∈ c.attempts, a.raised?.isSome = true → 0 < a.noted
  /-- Each fault that is raised stands at a token up to the end. -/
  anchored : ∀ e ∈ c.errors, e.fault.raised = true →
    ∃ i t, i ≤ endIndex tokens ∧ tokens[i]? = some t ∧ e.place = ⟨start + i, t⟩
  /-- Only at the end are several of them raised at one token. -/
  apart : (c.errors.filter (·.fault.raised)).Pairwise fun e e' =>
    e.place.id < e'.place.id ∨
      e.place.id = start + endIndex tokens ∧ e'.place.id = start + endIndex tokens

/--
The walk over a program ends with a result, the one of the parser: so no read was outside of the token
list, and no loop went round more often than there are tokens. Its log is in order.
-/
theorem parse?_within_tokens (start : Nat) (tokens : List Token)
    (ended : ∃ t ∈ tokens, t.kind = .endOfInput) (depth : Nat)
    (ample : 2 * endIndex tokens + 2 ≤ depth) :
    ∃ statements c, Cursor.program depth (initial start tokens) = .ok statements c ∧
      parse? depth start tokens = some ⟨statements, c.errors⟩ ∧ c.Orderly start tokens := by
  obtain ⟨I, statements, c, rfl, rfl, stops, walk, parses, position, sound⟩ :=
    Cursor.program_walks start ended ample
  have raised : c.errors.filter (·.fault.raised) = Cursor.caught c.attempts := by
    simpa using sound.raised
  refine ⟨statements, c, walk, parses, ⟨position.trans stops, sound.rising.ordered, ?_, ?_, ?_, ?_, ?_⟩⟩
  · intro k visited
    exact stops ▸ position ▸ sound.rising.reached k visited
  · intro a finished
    obtain ⟨bounded, progress, -⟩ := sound.attempts a finished
    exact ⟨by omega, progress⟩
  · intro a finished raises
    obtain ⟨e, raises⟩ := Option.isSome_iff_exists.1 raises
    exact ((sound.attempts a finished).caught e raises).1
  · intro e noted raises
    -- An error that is raised is left by an attempt that failed.
    have caught : e ∈ Cursor.caught c.attempts := raised ▸ List.mem_filter.2 ⟨noted, raises⟩
    obtain ⟨a, finished, raises⟩ := List.mem_filterMap.1 caught
    obtain ⟨-, i, -, before, ⟨t, here, place⟩, -⟩ := (sound.attempts a finished).caught e raises
    have bounded := (sound.attempts a finished).bounded
    exact ⟨i, t, by omega, here, place⟩
  · rw [raised, ← stops]
    exact sound.apart

/-- A token of an unknown kind, and tokens behind the end of the input. -/
def disarray : List Token :=
  [.ofKind .leftBrace "\x7b", .ofKind (.unknown "PERCENT") "%", .ofKind .semicolon ";",
    .ofKind .leftParen "(", endToken 1, .ofKind .kwPrint "print", endToken 2]

/-- Two faults are raised at the end: one in the block, and one since the block is not closed. -/
theorem parse?_within_tokens_disarray :
    (∃ t ∈ disarray, t.kind = .endOfInput) ∧ endIndex disarray = 4 ∧
      ∃ statements, ∃ c : Cursor, Cursor.program 10 (initial 0 disarray) = .ok statements c ∧
        parse? 10 0 disarray = some ⟨statements, c.errors⟩ ∧
        c.errors.map (·.place.id) = [1, 4, 4] ∧ c.Orderly 0 disarray := by
  have ended : ∃ t ∈ disarray, t.kind = .endOfInput := by decide
  obtain ⟨statements, c, walk, parses, orderly⟩ :=
    parse?_within_tokens 0 disarray ended 10 (by decide)
  have places : (parse? 10 0 disarray).map (·.errors.map (·.place.id)) = some [1, 4, 4] := by rfl
  rw [parses] at places
  exact ⟨ended, rfl, statements, c, walk, parses, Option.some.inj places, orderly⟩

end Lox
