import Lox.Proofs.Cursor.Standing

/-!
# Where a walk goes on after a fault

Recovery reads one token in any case and then goes to the next boundary. So it goes on at the first
boundary from the offending token on, unless the offending token itself begins a statement.
-/

namespace Lox.Cursor

open Grammar (startsStatement boundary)

/--
After a fault at index `i` a statement may begin at index `k`: at the end, at a token that begins a
statement, or behind a semicolon that is not before the offending token.
-/
def Boundary (tokens : List Token) (i k : Nat) : Prop :=
  i ≤ k ∧ ∃ t, tokens[k]? = some t ∧
    (t.kind = .endOfInput ∨ startsStatement t.kind = true ∨
      i < k ∧ ∃ b, tokens[k - 1]? = some b ∧ b.kind = .semicolon)

/--
After a fault at index `i` the walk goes on at index `k`: at the first boundary, or, if the offending
token begins a statement, at the first boundary after that token, so that the token is passed over.
-/
def Resumes (tokens : List Token) (i k : Nat) : Prop :=
  ∃ t, tokens[i]? = some t ∧
    (IsLeast {k | Boundary tokens i k} k ↔ startsStatement t.kind = false) ∧
    (startsStatement t.kind = true → IsLeast {k | i < k ∧ Boundary tokens i k} k)

variable {I : Input} {s : Grammar.State} {c : Cursor} {i : Nat}

theorem Input.boundary_stop (before : i ≤ I.stop) : Boundary I.tokens i I.stop :=
  ⟨before, I.last, I.getElem?_stop, .inl I.ended⟩

/-- A token inside the input, with the one before it known, tells whether it is a boundary. -/
theorem boundary_iff {tokens : List Token} {k : Nat} {t b : Token} (after : i < k)
    (here : tokens[k]? = some t) (ordinary : t.kind ≠ .endOfInput)
    (behind : tokens[k - 1]? = some b) :
    Boundary tokens i k ↔ b.kind = .semicolon ∨ startsStatement t.kind = true := by
  simp only [Boundary, here, behind, Option.some.injEq, exists_eq_left']
  constructor
  · rintro ⟨-, ended | starts | ⟨-, semicolon⟩⟩
    · exact absurd ended ordinary
    · exact .inr starts
    · exact .inl semicolon
  · rintro (semicolon | starts)
    · exact ⟨after.le, .inr (.inr ⟨after, semicolon⟩)⟩
    · exact ⟨after.le, .inr (.inl starts)⟩

/-- A fault at the end: there the walk stays. -/
theorem Input.resumes_stop : Resumes I.tokens I.stop I.stop := by
  have starts : startsStatement I.last.kind = false := by rw [I.ended]; rfl
  refine ⟨I.last, I.getElem?_stop, iff_of_true ?_ starts, fun found => ?_⟩
  · exact ⟨I.boundary_stop le_rfl, fun _ found => found.1⟩
  · rw [starts] at found
    cases found

/-- A fault before the end: the first boundary behind the offending token is where the walk goes on. -/
theorem resumes_of_least {tokens : List Token} {k : Nat} {t : Token} (here : tokens[i]? = some t)
    (ordinary : t.kind ≠ .endOfInput) (least : IsLeast {k | i < k ∧ Boundary tokens i k} k) :
    Resumes tokens i k := by
  -- a semicolon before the offending token does not count, so only its kind can make it a boundary
  have offending : Boundary tokens i i ↔ startsStatement t.kind = true := by
    simp [Boundary, here, ordinary]
  refine ⟨t, here, ⟨fun whole => ?_, fun other => ?_⟩, fun _ => least⟩
  · by_contra starts
    have reached : k ≤ i := whole.2 (offending.2 (by simpa using starts))
    exact absurd least.1.1 reached.not_gt
  · refine ⟨least.1.2, fun j boundary => least.2 ⟨?_, boundary⟩⟩
    refine Nat.lt_of_le_of_ne boundary.1 fun same => ?_
    have starts := offending.1 (same ▸ boundary)
    simp [other] at starts

/-! ## Looking for the boundary -/

/-- The state with the tokens from the next boundary on, if a token of the given kind lies behind. -/
def toBoundary (s : Grammar.State) (behind : TokenKind) : Grammar.State :=
  { s with
    ahead := (boundary behind s.ahead s.position).1
    position := (boundary behind s.ahead s.position).2 }

section ToBoundary

variable {t : Token} {rest : List Token} {behind : TokenKind}

theorem toBoundary_ended (ended : s.ahead = []) : toBoundary s behind = s := by
  unfold toBoundary
  rw [ended, boundary, ← ended]

theorem toBoundary_here (ahead : s.ahead = t :: rest)
    (stops : (behind == .semicolon || startsStatement t.kind) = true) : toBoundary s behind = s := by
  unfold toBoundary
  rw [ahead, boundary, if_pos stops, ← ahead]

theorem toBoundary_further (ahead : s.ahead = t :: rest)
    (passes : ¬(behind == .semicolon || startsStatement t.kind) = true) :
    toBoundary s behind =
      toBoundary { s with ahead := rest, position := s.position + 1 } t.kind := by
  unfold toBoundary
  simp only [ahead]
  rw [boundary, if_neg passes]

end ToBoundary

/-- What a search that begins at the cursor `c` comes to. -/
structure Sought (I : Input) (i : Nat) (c : Cursor) (target : Grammar.State) (n : Nat) : Prop where
  stands : Stands I target (c.moved n)
  found : Boundary I.tokens i (c.position + n)
  first : ∀ j, c.position ≤ j → j < c.position + n → ¬Boundary I.tokens i j

/-- The search stops where it is. -/
theorem Sought.here {target : Grammar.State} (stands : Stands I target c)
    (found : Boundary I.tokens i c.position) : Sought I i c target 0 :=
  ⟨by rwa [moved_zero], found, fun j reached before => absurd reached before.not_ge⟩

/-- The search goes on by one token, which is no boundary. -/
theorem Sought.later {target : Grammar.State} {n : Nat} (other : ¬Boundary I.tokens i c.position)
    (sought : Sought I i (c.moved 1) target n) : Sought I i c target (1 + n) := by
  obtain ⟨stands, found, first⟩ := sought
  rw [moved_moved] at stands
  rw [moved_position, Nat.add_assoc] at found
  refine ⟨stands, found, fun j reached before => ?_⟩
  obtain rfl | after := Nat.eq_or_lt_of_le reached
  · exact other
  · exact first j after (by rw [moved_position, Nat.add_assoc]; exact before)

/-- One round of the search before the end. -/
theorem Stands.seek_round (stands : Stands I s c) {t : Token} {rest : List Token}
    (ahead : s.ahead = t :: rest) {o : Occurrence} (back : previous c = .ok o c) (rounds : Nat) :
    Cursor.seek (rounds + 1) c =
      (if o.token.kind == .semicolon || startsStatement t.kind then pure ()
        else (do let _ ← Cursor.advance; Cursor.seek rounds) : Walk Unit) c := by
  refine (bind_ok stands.atEnd).trans ?_
  rw [ahead]
  refine (bind_ok back).trans ?_
  by_cases semicolon : (o.token.kind == .semicolon) = true
  · simp only [semicolon, if_true, Bool.true_or]
  · simp only [semicolon, Bool.false_or]
    refine (bind_ok stands.current).trans ?_
    simp only [Grammar.State.current, ahead]

theorem Stands.seek (rounds : Nat) : ∀ {s : Grammar.State} {c : Cursor} {b : Token},
    Stands I s c → i < c.position → c.tokens[c.position - 1]? = some b →
    I.stop - c.position < rounds →
    ∃ n, seek rounds c = .ok () (c.moved n) ∧ Sought I i c (toBoundary s b.kind) n := by
  induction rounds with
  | zero => exact fun _ _ _ enough => absurd enough (Nat.not_lt_zero _)
  | succ rounds inductionHypothesis =>
    intro s c b stands after behind enough
    have back : previous c = .ok ⟨c.start + (c.position - 1), b⟩ c :=
      previous_ok (by omega) behind
    obtain ⟨ended, position⟩ | ⟨t, rest, ahead, inside, here, ordinary, further⟩ := stands.cases
    · refine ⟨0, (bind_ok stands.atEnd).trans (by rw [ended, moved_zero]; rfl), .here ?_ ?_⟩
      · rwa [toBoundary_ended ended]
      · rw [position]
        exact I.boundary_stop (position ▸ after.le)
    -- before the end the two tests of a round say whether the next token is a boundary
    · have decides := boundary_iff after (stands.tokens ▸ here) ordinary (stands.tokens ▸ behind)
      rw [stands.seek_round ahead back rounds]
      by_cases stops : (b.kind == .semicolon || startsStatement t.kind) = true
      · rw [if_pos stops]
        refine ⟨0, by rw [moved_zero]; rfl, .here ?_ (decides.2 (by simpa using stops))⟩
        rwa [toBoundary_here ahead stops]
      · obtain ⟨n, sought, found⟩ := inductionHypothesis (b := t) further
          (Nat.lt_succ_of_lt after) (by simpa using here) (by rw [moved_position]; omega)
        rw [if_neg stops, toBoundary_further ahead stops]
        refine ⟨1 + n, ?_, found.later fun boundary => stops (by simpa using decides.1 boundary)⟩
        refine (bind_ok (stands.advance (by rw [ahead]; rfl) here)).trans ?_
        rw [sought, moved_moved]

/-! ## Recovery -/

/-- Recovery goes to the boundary behind the token that it reads in any case. -/
theorem Stands.synchronize (stands : Stands I s c) (nonempty : 0 < I.stop) :
    ∃ n, synchronize c = .ok () (c.moved n) ∧ Stands I s.synchronize (c.moved n) ∧
      Resumes I.tokens c.position (c.position + n) ∧ (c.position < I.stop → 0 < n) := by
  unfold Grammar.State.synchronize
  obtain ⟨ended, position⟩ | ⟨t, rest, ahead, inside, here, ordinary, further⟩ := stands.cases
  · obtain ⟨o, stays⟩ := stands.advance_ended ended nonempty position
    have stops : Cursor.seek (c.tokens.length + 1) c = .ok () c := by
      refine (bind_ok stands.atEnd).trans ?_
      rw [ended]
      rfl
    refine ⟨0, (bind_ok stays).trans (stops.trans (by rw [moved_zero])), ?_, ?_, by omega⟩
    · rwa [ended, moved_zero]
    · rw [position]
      exact I.resumes_stop
  · obtain ⟨n, sought, stands', found, first⟩ :=
      further.seek (i := c.position) (b := t) (c.tokens.length + 1) (Nat.lt_succ_self _)
        (by simpa using here) (by have := I.stop_lt; rw [stands.tokens]; omega)
    rw [moved_moved] at stands'
    -- The search starts behind the token, so the boundary it finds is the first one there.
    have least : IsLeast {k | c.position < k ∧ Boundary I.tokens c.position k}
        (c.position + (1 + n)) := by
      refine ⟨⟨by omega, by simpa [Nat.add_assoc] using found⟩, fun k boundary => ?_⟩
      by_contra before
      exact first k boundary.1 (by rw [moved_position]; omega) boundary.2
    refine ⟨1 + n, ?_, ?_, resumes_of_least (stands.tokens ▸ here) ordinary least, fun _ => by omega⟩
    · refine (bind_ok (stands.advance (by rw [ahead]; rfl) here)).trans ?_
      rw [← moved_moved]
      exact sought
    · rw [ahead]
      exact stands'

end Lox.Cursor
