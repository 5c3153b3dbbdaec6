import Lox.Proofs.Grammar.Acceptance
import Lox.Proofs.Grammar.Reading

/-!
# What a parser has read

`Finds` says what is known after a parser has run. If it noted no fault, then it read the tokens of a
word, and the property holds of that word, of the result and of the state reached. A parser with a
budget halts at too deep a nesting only if at least so many tokens lay ahead.
-/

namespace Lox.Grammar

/-- The second state is reached from the first by reading on, and no fault is forgotten. -/
structure State.Onward (s s' : State) : Prop where
  counted : s'.Counted
  fewer : s'.ahead.length ≤ s.ahead.length
  noted : s.errors.size ≤ s'.errors.size

theorem State.Onward.refl {s : State} (counted : s.Counted) : s.Onward s :=
  ⟨counted, Nat.le_refl _, Nat.le_refl _⟩

theorem State.Onward.trans {s s' s'' : State} (first : s.Onward s') (second : s'.Onward s'') :
    s.Onward s'' :=
  ⟨second.counted, Nat.le_trans second.fewer first.fewer, Nat.le_trans first.noted second.noted⟩

theorem State.advance_onward {s : State} (counted : s.Counted) {t : Token}
    (ahead : s.ahead.head? = some t) :
    s.Onward s.advance ∧ s.advance.ahead.length + 1 = s.ahead.length := by
  obtain ⟨rest, here⟩ := List.head?_eq_some_iff.1 ahead
  simp only [State.Counted, here, List.length_cons] at counted
  refine ⟨⟨?_, ?_, Nat.le_refl _⟩, ?_⟩
  · simp only [State.Counted, State.advance, here, List.tail_cons]
    omega
  · simp [State.advance]
  · simp [State.advance, here]

theorem State.avoids_or (s : State) (kinds : List TokenKind) :
    s.Avoids kinds ∨ ∃ t, s.ahead.head? = some t ∧ t.kind ∈ kinds := by
  cases ahead : s.ahead with
  | nil =>
    left
    intro t here
    simp [ahead] at here
  | cons t rest =>
    by_cases listed : t.kind ∈ kinds
    · exact .inr ⟨t, rfl, listed⟩
    · left
      intro u here
      simp only [ahead, List.head?_cons, Option.mem_some_iff] at here
      rwa [← here]

theorem State.Counted.synchronize {s : State} (counted : s.Counted) : s.Onward s.synchronize := by
  obtain ⟨ahead, position, last, errors⟩ := s
  cases ahead with
  | nil => exact .refl counted
  | cons t rest =>
    obtain ⟨forward, total, -⟩ := boundary_counted t.kind rest (position + 1)
    simp only [State.Counted, List.length_cons] at counted
    simp only [State.synchronize]
    refine ⟨?_, ?_, Nat.le_refl _⟩
    · simp only [State.Counted]
      omega
    · simp only [List.length_cons]
      omega

variable {α β : Type}

/-- What a parser has found, depending on how it ended. -/
def Finds (budget : Nat) (p : Parser α) (s : State) (Q : List Occurrence → α → State → Prop) : Prop :=
  match p s with
  | .ok a s' => s.Onward s' ∧ (s'.errors.size = s.errors.size → ∃ w, s.Passes w s' ∧ Q w a s')
  | .error .fault s' => s.Onward s' ∧ s.errors.size < s'.errors.size
  | .error .tooDeep _ => budget ≤ s.ahead.length

/-- What a step of a repetition has found: where it stops, or a word that is not empty. -/
def Found (Stop : State → Prop) (Step : List Occurrence → α → Prop) (w : List Occurrence) :
    Option α → State → Prop
  | none, s => w = [] ∧ Stop s
  | some a, _ => w ≠ [] ∧ Step w a

namespace Finds

variable {budget : Nat} {p : Parser α} {f : α → Parser β} {s : State} {a : α}
variable {Q R : List Occurrence → α → State → Prop} {P : List Occurrence → β → State → Prop}

theorem pure (counted : s.Counted) (holds : Q [] a s) : Finds budget (pure a) s Q :=
  ⟨.refl counted, fun _ => ⟨[], .nothing s, holds⟩⟩

theorem tooDeep : Finds 0 tooDeep s Q := Nat.zero_le _

theorem bind (first : Finds budget p s Q)
    (second : ∀ a s', s.Onward s' → Finds budget (f a) s'
      fun w' b s'' => ∀ w, s.Passes w s' → Q w a s' → P (w ++ w') b s'') :
    Finds budget (p >>= f) s P := by
  unfold Finds at first ⊢
  cases result : p s with
  | error halt s' =>
    rw [bind_error result]
    rw [result] at first
    cases halt <;> exact first
  | ok a s' =>
    rw [bind_ok result]
    rw [result] at first
    obtain ⟨onward, found⟩ := first
    have rest := second a s' onward
    unfold Finds at rest
    cases next : f a s' with
    | error halt s'' =>
      rw [next] at rest
      cases halt with
      | fault => exact ⟨onward.trans rest.1, Nat.lt_of_le_of_lt onward.noted rest.2⟩
      | tooDeep => exact Nat.le_trans rest onward.fewer
    | ok b s'' =>
      rw [next] at rest
      refine ⟨onward.trans rest.1, fun unchanged => ?_⟩
      -- if no fault was noted on the way, then none was noted in either part
      have noted := onward.noted
      have notedThere := rest.1.noted
      obtain ⟨w, passes, holds⟩ := found (by omega)
      obtain ⟨w', passes', holds'⟩ := rest.2 (by omega)
      exact ⟨w ++ w', passes.append passes', holds' w passes holds⟩

theorem mono (finds : Finds budget p s Q) (implies : ∀ w a s', s.Passes w s' → Q w a s' → R w a s') :
    Finds budget p s R := by
  unfold Finds at finds ⊢
  cases result : p s with
  | error halt s' =>
    rw [result] at finds
    cases halt <;> exact finds
  | ok a s' =>
    rw [result] at finds
    refine ⟨finds.1, fun unchanged => ?_⟩
    obtain ⟨w, passes, holds⟩ := finds.2 unchanged
    exact ⟨w, passes, implies w a s' passes holds⟩

theorem lessBudget (finds : Finds budget p s Q) {less : Nat} (le : less ≤ budget) :
    Finds less p s Q := by
  unfold Finds at finds ⊢
  cases result : p s with
  | error halt s' =>
    rw [result] at finds
    cases halt with
    | fault => exact finds
    | tooDeep => exact Nat.le_trans le finds
  | ok a s' => rwa [result] at finds

theorem map {g : α → β} (finds : Finds budget p s Q)
    (mapped : ∀ w a s', s.Passes w s' → Q w a s' → P w (g a) s') : Finds budget (g <$> p) s P := by
  apply finds.bind
  intro a s' onward
  apply pure onward.counted
  intro w passes holds
  rw [List.append_nil]
  exact mapped w a s' passes holds

/-! ## Faults -/

theorem note (counted : s.Counted) (fault : ParseFault) (place : Occurrence)
    {Q : List Occurrence → Unit → State → Prop} : Finds budget (note fault place) s Q := by
  refine ⟨⟨counted, Nat.le_refl _, ?_⟩, fun unchanged => ?_⟩
  · simp
  · simp only [Array.size_push] at unchanged
    omega

theorem noteHere (counted : s.Counted) (fault : ParseFault)
    {Q : List Occurrence → Unit → State → Prop} : Finds budget (noteHere fault) s Q := by
  have noted : Finds budget (Grammar.note fault s.current) s Q := note counted fault s.current
  exact noted

theorem fail (counted : s.Counted) (fault : ParseFault) : Finds budget (fail fault) s Q := by
  refine ⟨⟨counted, Nat.le_refl _, ?_⟩, ?_⟩
  · simp
  · simp

theorem of_fault {s' : State} (result : p s = .error .fault s') (onward : s.Onward s')
    (noted : s.errors.size < s'.errors.size) : Finds budget p s Q := by
  unfold Finds
  rw [result]
  exact ⟨onward, noted⟩

/-! ## Tokens -/

section Tokens

variable {kinds : List TokenKind} {kind : TokenKind} {fault : ParseFault}

theorem of_look {a : α} (look : p s = .ok a s) (rest : Finds budget (f a) s P) :
    Finds budget (p >>= f) s P := by
  unfold Finds at rest ⊢
  rwa [bind_ok look]

/-- After a token, less of the budget is needed. -/
theorem of_token {t : Token} (counted : s.Counted) (ahead : s.ahead.head? = some t)
    (reads : p s = .ok a s.advance)
    (rest : s.advance.Counted → Finds (budget - 1) (f a) s.advance
      fun w b s' => P (⟨s.position, t⟩ :: w) b s') :
    Finds budget (p >>= f) s P := by
  obtain ⟨onward, fewer⟩ := s.advance_onward counted ahead
  have after := rest onward.counted
  unfold Finds at after ⊢
  rw [bind_ok reads]
  cases result : f a s.advance with
  | error halt s' =>
    rw [result] at after
    cases halt with
    | fault => exact ⟨onward.trans after.1, after.2⟩
    | tooDeep =>
      -- The budget is one more than for the rest, and so is the number of tokens.
      simp only at after ⊢
      omega
  | ok b s' =>
    rw [result] at after
    refine ⟨onward.trans after.1, fun unchanged => ?_⟩
    obtain ⟨w, passes, holds⟩ := after.2 unchanged
    exact ⟨_, .token ahead passes, holds⟩

theorem accept? {f : Option Occurrence → Parser β} (counted : s.Counted)
    (absent : s.Avoids kinds → Finds budget (f none) s P)
    (present : ∀ t : Terminal kinds, s.advance.Counted →
      Finds (budget - 1) (f (some t.occurrence)) s.advance
        fun w b s' => P (t.occurrence :: w) b s') :
    Finds budget (accept? kinds >>= f) s P := by
  obtain avoids | ⟨t, ahead, listed⟩ := s.avoids_or kinds
  · exact of_look (accept?_avoids avoids) (absent avoids)
  · exact of_token counted ahead (accept?_ok t ahead listed) (present ⟨_, listed⟩)

theorem accept {f : Bool → Parser β} (counted : s.Counted)
    (absent : s.Avoids [kind] → Finds budget (f false) s P)
    (present : ∀ t : Terminal [kind], s.Meets [kind] → s.advance.Counted →
      Finds (budget - 1) (f true) s.advance fun w b s' => P (t.occurrence :: w) b s') :
    Finds budget (accept kind >>= f) s P := by
  obtain avoids | ⟨t, ahead, listed⟩ := s.avoids_or [kind]
  · exact of_look (accept_avoids avoids) (absent avoids)
  · exact of_token counted ahead (bind_ok (accept?_ok t ahead listed))
      (present ⟨_, listed⟩ ⟨t, ahead, listed⟩)

theorem expect {f : Occurrence → Parser β} (counted : s.Counted)
    (present : ∀ t : Terminal [kind], s.advance.Counted →
      Finds (budget - 1) (f t.occurrence) s.advance fun w b s' => P (t.occurrence :: w) b s') :
    Finds budget (expect kind fault >>= f) s P := by
  obtain avoids | ⟨t, ahead, listed⟩ := s.avoids_or [kind]
  · have fails : Grammar.expect kind fault s = Grammar.fail fault s :=
      bind_ok (accept?_avoids avoids)
    exact of_fault (bind_error fails) ⟨counted, Nat.le_refl _, by simp⟩ (by simp)
  · exact of_token counted ahead (bind_ok (accept?_ok t ahead listed)) (present ⟨_, listed⟩)

theorem skip {f : Unit → Parser β} (counted : s.Counted)
    (present : ∀ t : Terminal [kind], s.advance.Counted →
      Finds (budget - 1) (f ()) s.advance fun w b s' => P (t.occurrence :: w) b s') :
    Finds budget (skip kind fault >>= f) s P := by
  obtain avoids | ⟨t, ahead, listed⟩ := s.avoids_or [kind]
  · have fails : Grammar.skip kind fault s = Grammar.fail fault s :=
      bind_error (bind_ok (accept?_avoids avoids))
    exact of_fault (bind_error fails) ⟨counted, Nat.le_refl _, by simp⟩ (by simp)
  · have reads : Grammar.skip kind fault s = .ok () s.advance :=
      bind_ok (bind_ok (accept?_ok t ahead listed))
    exact of_token counted ahead reads (present ⟨_, listed⟩)

theorem next {f : Bool → Parser β} (closed : s.Meets [kind] → Finds budget (f true) s P)
    (opened : s.Avoids [kind] → Finds budget (f false) s P) :
    Finds budget (next kind >>= f) s P := by
  obtain avoids | ⟨t, ahead, listed⟩ := s.avoids_or [kind]
  · exact of_look (next_avoids avoids) (opened avoids)
  · exact of_look (next_meets ⟨t, ahead, listed⟩) (closed ⟨t, ahead, listed⟩)

theorem atEnd {f : Bool → Parser β} (ended : s.Ended → Finds budget (f true) s P)
    (going : Finds budget (f false) s P) : Finds budget (atEnd >>= f) s P := by
  cases ahead : s.ahead with
  | nil => exact of_look (by simp [Grammar.atEnd, ahead]) (ended ahead)
  | cons t rest => exact of_look (by simp [Grammar.atEnd, ahead]) going

end Tokens

/--
What holds of a repetition, if it holds of no items and is passed on by each step. A step that yields
something reads at least one token, so the fuel does not run out.
-/
theorem manyFrom {step : Nat → Parser (Option α)} {Stop : State → Prop}
    {Step : Nat → List Occurrence → α → Prop} {All : Nat → List Occurrence → List α → Prop}
    (each : ∀ count s, s.Counted → Finds budget (step count) s (Found Stop (Step count)))
    (nothing : ∀ count, All count [] [])
    (more : ∀ count w a w' items, Step count w a → All (count + 1) w' items →
      All count (w ++ w') (a :: items))
    (fuel count : Nat) (found : List α) (s : State) (counted : s.Counted) :
    Finds budget (manyFrom step fuel count found) s fun w all s' => s.ahead.length < fuel →
      Stop s' ∧ ∃ items, all = found.reverse ++ items ∧ All count w items := by
  induction fuel generalizing count found s with
  | zero => exact pure counted fun impossible => absurd impossible (Nat.not_lt_zero _)
  | succ fuel inductionHypothesis =>
    apply (each count s counted).bind
    intro result s' onward
    cases result with
    | none =>
      apply pure onward.counted
      rintro w passes ⟨rfl, stop⟩ -
      exact ⟨stop, [], by simp, nothing count⟩
    | some a =>
      apply (inductionHypothesis (count + 1) (a :: found) s' onward.counted).mono
      rintro w' all s'' passes' rest w passes ⟨nonempty, holds⟩ enough
      -- The step read a token, so the fuel that is left suffices for the tokens that are left.
      have length := passes.length
      have positive := List.length_pos_iff.2 nonempty
      obtain ⟨stop, items, rfl, others⟩ := rest (by omega)
      exact ⟨stop, a :: items, by simp, more count w a w' items holds others⟩

end Finds

/-- From any state the parser finds what has the property. -/
def Finder (budget : Nat) (p : Parser α) (Q : List Occurrence → α → State → Prop) : Prop :=
  ∀ s : State, s.Counted → Finds budget p s Q

namespace Finder

variable {budget : Nat} {p : Parser α} {Q R : List Occurrence → α → State → Prop}

theorem mono (finder : Finder budget p Q) (implies : ∀ w a s', Q w a s' → R w a s') :
    Finder budget p R :=
  fun s counted => (finder s counted).mono fun w a s' _ holds => implies w a s' holds

theorem lessBudget (finder : Finder budget p Q) {less : Nat} (le : less ≤ budget) :
    Finder less p Q :=
  fun s counted => (finder s counted).lessBudget le

/-- A repetition, given what its steps find, where they stop, and what is made of it all. -/
theorem many {step : Nat → Parser (Option α)} (Stop : State → Prop)
    (Step : Nat → List Occurrence → α → Prop) (All : Nat → List Occurrence → List α → Prop)
    (each : ∀ count, Finder budget (step count) (Found Stop (Step count)))
    (nothing : ∀ count, All count [] [])
    (more : ∀ count w a w' items, Step count w a → All (count + 1) w' items →
      All count (w ++ w') (a :: items)) :
    Finder budget (many step) fun w all s' => Stop s' ∧ All 0 w all := by
  intro s counted
  have found := Finds.manyFrom each nothing more (s.remaining + 1) 0 [] s counted
  apply found.mono
  intro w all s' passes holds
  simp only [State.Counted] at counted
  obtain ⟨stop, items, rfl, all⟩ := holds (by simp only [State.remaining]; omega)
  exact ⟨stop, all⟩

theorem recovering (finder : Finder budget p Q) :
    Finder budget (recovering p) fun w found s' => ∃ a, found = some a ∧ Q w a s' := by
  intro s counted
  have outcome := finder s counted
  unfold Finds at outcome ⊢
  unfold Grammar.recovering
  cases result : p s with
  | ok a s' =>
    rw [result] at outcome
    refine ⟨outcome.1, fun unchanged => ?_⟩
    obtain ⟨w, passes, holds⟩ := outcome.2 unchanged
    exact ⟨w, passes, a, rfl, holds⟩
  | error halt s' =>
    rw [result] at outcome
    cases halt with
    | tooDeep => exact outcome
    | fault =>
      -- the fault that was noted stays, so nothing is said about the result
      have same : s'.synchronize.errors = s'.errors := by
        unfold State.synchronize
        split <;> rfl
      refine ⟨outcome.1.trans outcome.1.counted.synchronize, fun unchanged => ?_⟩
      rw [same] at unchanged
      have grown := outcome.2
      omega

end Finder

end Lox.Grammar
