import Lox.Proofs.Cursor.Grammar
import Mathlib.Order.Bounds.Basic

/-!
# Where a walk stands

What the state of the parser over the tokens ahead and the cursor of a walk have in common, what the
helpers of a walk do there, and where a walk goes on after a fault.
-/

namespace Lox.Cursor

/-- A token list with its first end-of-input token. -/
structure Input where
  /-- The number of the first token. -/
  start : Nat
  body : List Token
  last : Token
  /-- What comes after the end of the input. -/
  rest : List Token
  ordinary : ∀ t ∈ body, t.kind ≠ .endOfInput
  ended : last.kind = .endOfInput

namespace Input

def tokens (I : Input) : List Token := I.body ++ I.last :: I.rest

/-- The index of the first end-of-input token. -/
def stop (I : Input) : Nat := I.body.length

variable {I : Input} {i : Nat}

theorem getElem?_stop : I.tokens[I.stop]? = some I.last := by
  simp [tokens, stop]

theorem getElem?_body (inside : i < I.stop) :
    ∃ t, I.tokens[i]? = some t ∧ t.kind ≠ .endOfInput ∧ I.body.drop i = t :: I.body.drop (i + 1) := by
  simp only [stop] at inside
  refine ⟨I.body[i], ?_, I.ordinary _ (I.body.getElem_mem inside), List.drop_eq_getElem_cons inside⟩
  simp [tokens, List.getElem?_append_left inside]

theorem stop_lt : I.stop < I.tokens.length := by
  simp [tokens, stop]

end Input

/-- The cursor stands where the state stands. -/
structure Stands (I : Input) (s : Grammar.State) (c : Cursor) : Prop where
  tokens : c.tokens = I.tokens
  start : c.start = I.start
  bounded : c.position ≤ I.stop
  ahead : s.ahead = I.body.drop c.position
  position : s.position = I.start + c.position
  last : s.last = ⟨I.start + I.stop, I.last⟩
  errors : s.errors.toList = c.errors

/-- The cursor after the next `n` tokens. -/
def moved (c : Cursor) (n : Nat) : Cursor :=
  { c with position := c.position + n, visited := c.visited ++ List.range' (c.position + 1) n }

section Moved

variable (c : Cursor) (m n : Nat)

@[simp] theorem moved_position : (c.moved n).position = c.position + n := rfl

@[simp] theorem moved_tokens : (c.moved n).tokens = c.tokens := rfl

@[simp] theorem moved_zero : c.moved 0 = c := by simp [moved]

@[simp] theorem moved_moved : (c.moved m).moved n = c.moved (m + n) := by
  have joined := List.range'_append_1 (s := c.position + 1) (m := m) (n := n)
  rw [Nat.add_right_comm] at joined
  simp [moved, Nat.add_assoc, ← joined]

end Moved

theorem step_eq (c : Cursor) : step c = .ok () (c.moved 1) := rfl

/-! ## Sequences of walks -/

section Bind

variable {α β : Type} {p : Walk α} {f : α → Walk β} {c c' : Cursor}

theorem bind_ok {a : α} (result : p c = .ok a c') : (p >>= f) c = f a c' := by
  change EStateM.bind p f c = _
  simp only [EStateM.bind, result]

theorem bind_error {stop : Stop} (result : p c = .error stop c') :
    (p >>= f) c = .error stop c' := by
  change EStateM.bind p f c = _
  simp only [EStateM.bind, result]

end Bind

/-! ## Reading tokens -/

variable {I : Input} {s : Grammar.State} {c : Cursor}

theorem look_ok {index : Nat} {t : Token} (here : c.tokens[index]? = some t) :
    look index c = .ok ⟨c.start + index, t⟩ c := by
  simp only [look, here]

theorem previous_ok {index : Nat} {t : Token} (behind : c.position = index + 1)
    (here : c.tokens[index]? = some t) : previous c = .ok ⟨c.start + index, t⟩ c := by
  simp only [previous, behind]
  exact look_ok here

namespace Stands

/-- Both stand at the end, or both stand in front of the same token. -/
theorem cases (stands : Stands I s c) :
    (s.ahead = [] ∧ c.position = I.stop) ∨
      ∃ t rest, s.ahead = t :: rest ∧ c.position < I.stop ∧ c.tokens[c.position]? = some t ∧
        t.kind ≠ .endOfInput ∧
        Stands I { s with ahead := rest, position := s.position + 1 } (c.moved 1) := by
  have ahead := stands.ahead
  obtain ended | inside := Nat.eq_or_lt_of_le stands.bounded
  · left
    refine ⟨?_, ended⟩
    rw [ahead, ended]
    exact List.drop_length
  · right
    obtain ⟨t, here, ordinary, split⟩ := I.getElem?_body inside
    refine ⟨t, _, ahead.trans split, inside, by rw [stands.tokens, here], ordinary, ?_⟩
    exact { stands with
      bounded := inside
      ahead := rfl
      position := by simp only [stands.position, moved_position, Nat.add_assoc] }

theorem here (stands : Stands I s c) : c.tokens[c.position]? = some s.current.token := by
  unfold Grammar.State.current
  obtain ⟨ended, position⟩ | ⟨t, rest, ahead, -, here, -⟩ := stands.cases
  · rw [ended, stands.tokens, position, stands.last]
    exact I.getElem?_stop
  · rw [ahead, here]

theorem place (stands : Stands I s c) : s.current = ⟨c.start + c.position, s.current.token⟩ := by
  unfold Grammar.State.current
  obtain ⟨ended, position⟩ | ⟨t, rest, ahead, -⟩ := stands.cases
  · rw [ended, stands.last, stands.start, position]
  · rw [ahead, stands.position, stands.start]

theorem current (stands : Stands I s c) : current c = .ok s.current c := by
  rw [stands.place]
  exact look_ok stands.here

theorem atEnd (stands : Stands I s c) : atEnd c = .ok s.ahead.isEmpty c := by
  refine (bind_ok stands.current).trans ?_
  unfold Grammar.State.current
  obtain ⟨ended, position⟩ | ⟨t, rest, ahead, -, -, ordinary, -⟩ := stands.cases
  · rw [ended, stands.last]
    simp [pure, EStateM.pure, I.ended]
  · rw [ahead]
    simp [pure, EStateM.pure, ordinary]

theorem next (stands : Stands I s c) (kind : TokenKind) :
    next kind c = .ok (s.ahead.head?.any (·.kind == kind)) c := by
  refine (bind_ok stands.atEnd).trans ?_
  obtain ⟨ended, position⟩ | ⟨t, rest, ahead, -⟩ := stands.cases
  · simp [ended, pure, EStateM.pure]
  · have current : s.current = ⟨s.position, t⟩ := by
      unfold Grammar.State.current
      rw [ahead]
    simp only [ahead, List.isEmpty_cons]
    refine (bind_ok stands.current).trans ?_
    simp [current, pure, EStateM.pure]

/-- In front of a token, going on reads it. -/
theorem advance {t : Token} (stands : Stands I s c) (inside : s.ahead.isEmpty = false)
    (here : c.tokens[c.position]? = some t) :
    advance c = .ok ⟨s.position, t⟩ (c.moved 1) := by
  refine (bind_ok stands.atEnd).trans ?_
  rw [inside]
  refine (bind_ok (step_eq c)).trans ?_
  rw [stands.position, ← stands.start]
  exact previous_ok rfl here

/-- At the end, going on stays there. The token behind is there unless the input is empty. -/
theorem advance_ended (stands : Stands I s c) (ended : s.ahead = []) (nonempty : 0 < I.stop)
    (position : c.position = I.stop) : ∃ o, Cursor.advance c = .ok o c := by
  obtain ⟨index, behind⟩ := Nat.exists_eq_add_one.2 (position ▸ nonempty)
  obtain ⟨t, here, -⟩ := I.getElem?_body (i := index) (by omega)
  refine ⟨⟨c.start + index, t⟩, (bind_ok stands.atEnd).trans ?_⟩
  rw [ended]
  exact previous_ok behind (by rw [stands.tokens, here])

theorem accept? (stands : Stands I s c) (kinds : List TokenKind) :
    accept? kinds c = match s.ahead with
      | [] => .ok none c
      | t :: _ => if kinds.contains t.kind then .ok (some ⟨s.position, t⟩) (c.moved 1) else .ok none c := by
  induction kinds with
  | nil => cases s.ahead <;> rfl
  | cons kind kinds inductionHypothesis =>
    refine (bind_ok (stands.next kind)).trans ?_
    obtain ⟨ended, -⟩ | ⟨t, rest, ahead, -, here, -⟩ := stands.cases
    · simpa [ended] using inductionHypothesis
    · simp only [ahead, List.head?_cons, Option.any_some] at inductionHypothesis ⊢
      by_cases found : t.kind = kind
      · subst found
        simp only [beq_self_eq_true, if_true, List.contains_cons, Bool.true_or]
        exact bind_ok (stands.advance (by rw [ahead]; rfl) here)
      · have other : (t.kind == kind) = false := by simpa using found
        simpa [found, other] using inductionHypothesis

end Stands

end Lox.Cursor
