import Lox.Proofs.Grammar.Prediction

/-!
# Predicted repetition

A repetition follows the star of a rule if its step goes on just at the tokens with which the words of
the rule begin, and follows the rule there.
-/

namespace Lox.Grammar

variable {α β : Type} {s s' : State} {K : Language TokenKind}

/-- The step goes on just if the next token is of certain kinds, and then it follows the rule. -/
structure Loops (goes : TokenKind → Bool) (step : Parser (Option α)) (r : Rule)
    (K : Language TokenKind) : Prop where
  stops : ∀ s : State, s.Proper → goes s.nextKind = false → step s = .ok none s
  steps : ∀ s : State, s.Proper → goes s.nextKind = true →
    Told r.language K s (step s) ∧ ∀ s', step s ≠ .ok none s'

theorem Loops.kept {goes : TokenKind → Bool} {step : Parser (Option α)} {r : Rule}
    (loops : Loops goes step r K) (proper : s.Proper) : Kept s (step s) := by
  cases next : goes s.nextKind with
  | false =>
    rw [loops.stops s proper next]
    exact .ok (.nil proper)
  | true => exact (loops.steps s proper next).1.kept

theorem Kept.after {result : EStateM.Result Halt State α} {new : List ParseError}
    (onto : s.Onto s' new) (kept : Kept s' result) : Kept s result := by
  cases kept with
  | ok onto' => exact .ok (onto.trans onto')
  | fault onto' => exact .fault (onto.trans onto')
  | tooDeep => exact .tooDeep

section Many

variable {goes : TokenKind → Bool} {step : Nat → Parser (Option α)} {r : Rule}

theorem manyFrom_succ (fuel count : Nat) (found : List α) :
    manyFrom step (fuel + 1) count found = step count >>= fun
      | none => pure found.reverse
      | some a => manyFrom step fuel (count + 1) (a :: found) := rfl

theorem manyFrom_kept (loops : ∀ count, Loops goes (step count) r K) (fuel count : Nat)
    (found : List α) (s : State) (proper : s.Proper) :
    Kept s (manyFrom step fuel count found s) := by
  -- Nothing is asked of the fuel: to run out of it is no fault.
  induction fuel generalizing count found s with
  | zero => exact .ok (.nil proper)
  | succ fuel inductionHypothesis =>
    have kept := (loops count).kept proper
    rw [manyFrom_succ]
    cases outcome : step count s with
    | error halt s' =>
      rw [outcome] at kept
      rw [bind_error outcome]
      cases kept with
      | fault onto => exact .fault onto
      | tooDeep => exact .tooDeep
    | ok result s' =>
      rw [outcome] at kept
      rw [bind_ok outcome]
      cases kept with
      | ok onto =>
        cases result with
        | none => exact .ok onto
        | some a => exact .after onto (inductionHypothesis _ _ s' onto.proper)

/-- What a round reads is not empty, so that the fuel lasts. -/
theorem State.Spans.shorter {ts : List Token} (spans : s.Spans ts s') (word : kinds ts ∈ r.language)
    (solid : r.nullable = false) : s'.ahead.length < s.ahead.length := by
  have nonempty : ts ≠ [] := by
    rintro rfl
    rw [Rule.Derives.nullable word rfl] at solid
    cases solid
  have positive := List.length_pos_iff.2 nonempty
  rw [spans.ahead, List.length_append]
  omega

theorem manyFrom_told (loops : ∀ count, Loops goes (step count) r ((Rule.star r).language * K))
    (starts : ∀ kind ∈ r.firsts, goes kind = true) (solid : r.nullable = false)
    (after : ∀ kind, goes kind = true → ∀ v, kind :: v ∉ K) (fuel count : Nat) (found : List α)
    (s : State) (proper : s.Proper) (enough : s.ahead.length < fuel) :
    Told (Rule.star r).language K s (manyFrom step fuel count found s) := by
  induction fuel generalizing count found s with
  | zero => exact absurd enough (Nat.not_lt_zero _)
  | succ fuel inductionHypothesis =>
    rw [manyFrom_succ]
    cases next : goes s.nextKind with
    | false =>
      -- The repetition stops: what has been read so far can be followed by `K` only.
      have apart : s.nextKind ∉ r.firsts := fun listed => by simp [starts _ listed] at next
      have narrows : Narrows .empty (.star r) K s.nextKind := .stop apart solid
      rw [bind_ok ((loops count).stops s proper next)]
      exact (Predicts.pure s proper).focus narrows.fewer narrows.only
    | true =>
      -- One more round, for nothing in `K` begins with a token that goes on.
      have avoids : Avoids K [s.nextKind] := by
        intro kind same
        rw [List.mem_singleton.1 same]
        exact after _ next
      have narrows : Narrows (.seq r (.star r)) (.star r) K s.nextKind := .round avoids
      refine Told.focus ?_ narrows.fewer narrows.only
      rw [Rule.language_seq]
      obtain ⟨told, some⟩ := (loops count).steps s proper next
      cases outcome : step count s with
      | error halt s' =>
        rw [outcome] at told
        rw [bind_error outcome]
        cases told with
        | halted onto first blamed => exact .halted onto first (blamed.left ⟨[], .done⟩)
        | tooDeep => exact .tooDeep
      | ok result s' =>
        cases result with
        | none => exact absurd outcome (some s')
        | some a =>
          rw [outcome] at told
          rw [bind_ok outcome]
          cases told with
          | @passed _ _ _ ts onto silent spans word forced =>
            have shorter := spans.shorter word solid
            exact .after onto silent spans word forced ⟨[], .done⟩
              (inductionHypothesis _ _ s' onto.proper (by omega))
          | recovered onto first blamed =>
            exact .of_blamed onto first (blamed.left ⟨[], .done⟩)
              (manyFrom_kept loops fuel _ _ s' onto.proper)

/-- A repetition that raises no fault stops only where its step does not go on. -/
theorem manyFrom_rests (loops : ∀ count, Loops goes (step count) r K) (solid : r.nullable = false)
    (fuel count : Nat) (found : List α) (s : State) (proper : s.Proper)
    (enough : s.ahead.length < fuel) {result : List α} {s' : State}
    (outcome : manyFrom step fuel count found s = .ok result s') (silent : Silent s'.errors.toList) :
    goes s'.nextKind = false := by
  induction fuel generalizing count found s with
  | zero => exact absurd enough (Nat.not_lt_zero _)
  | succ fuel inductionHypothesis =>
    rw [manyFrom_succ] at outcome
    cases next : goes s.nextKind with
    | false =>
      rw [bind_ok ((loops count).stops s proper next)] at outcome
      cases outcome
      exact next
    | true =>
      obtain ⟨told, some⟩ := (loops count).steps s proper next
      cases round : step count s with
      | error halt t =>
        rw [bind_error round] at outcome
        cases outcome
      | ok result t =>
        cases result with
        | none => exact absurd round (some t)
        | some a =>
          rw [round] at told
          rw [bind_ok round] at outcome
          cases told with
          | passed onto _ spans word =>
            have shorter := spans.shorter word solid
            exact inductionHypothesis _ _ t onto.proper (by omega) outcome
          | @recovered _ _ new e onto first =>
            -- the fault of the round is still there at the end
            have kept : Kept t (.ok result s') :=
              outcome ▸ manyFrom_kept loops fuel (count + 1) (a :: found) t onto.proper
            cases kept with
            | ok onto' =>
              have here : e ∈ s'.errors.toList := by
                rw [(onto.trans onto').errors]
                simp [List.mem_of_find?_eq_some first]
              have raised := List.find?_some first
              rw [silent e here] at raised
              cases raised

theorem State.Proper.enough (proper : s.Proper) : s.ahead.length < s.remaining + 1 := by
  have counted := proper.counted
  simp only [State.Counted] at counted
  simp only [State.remaining]
  omega

theorem many_rests (loops : ∀ count, Loops goes (step count) r K) (solid : r.nullable = false)
    (proper : s.Proper) {result : List α} (outcome : many step s = .ok result s')
    (silent : Silent s'.errors.toList) : goes s'.nextKind = false :=
  manyFrom_rests loops solid _ 0 [] s proper proper.enough outcome silent

theorem Predicts.many (loops : ∀ count, Loops goes (step count) r ((Rule.star r).language * K))
    (starts : ∀ kind ∈ r.firsts, goes kind = true) (solid : r.nullable = false)
    (after : ∀ kind, goes kind = true → ∀ v, kind :: v ∉ K) :
    Predicts (many step) (.star r) K :=
  fun s proper => manyFrom_told loops starts solid after _ 0 [] s proper proper.enough

end Many

/-! ## Steps of repetitions -/

/-- The parser does not yield nothing. -/
def Yielding (p : Parser (Option α)) : Prop := ∀ s s', p s ≠ .ok none s'

theorem Yielding.some (a : α) : Yielding (pure (some a)) := fun _ _ => nofun

theorem Yielding.bind {p : Parser α} {f : α → Parser (Option β)} (yielding : ∀ a, Yielding (f a)) :
    Yielding (p >>= f) := by
  intro s s' result
  cases outcome : p s with
  | ok a t =>
    rw [bind_ok outcome] at result
    exact yielding a t s' result
  | error halt t =>
    rw [bind_error outcome] at result
    cases result

namespace Loops

variable {a b c : Rule} {kind : TokenKind} {goes : TokenKind → Bool}

theorem accept? {kinds : List TokenKind} {f : Option Occurrence → Parser (Option α)}
    (ordinary : .endOfInput ∉ kinds) (absent : f none = pure none)
    (present : ∀ o : Occurrence, Predicts (f (some o)) c K) (yielding : ∀ o, Yielding (f (some o)))
    (productive : c.productive Nonterminal.all = true) :
    Loops kinds.contains (Grammar.accept? kinds >>= f) (.seq (.token kinds) c) K := by
  constructor
  · intro s proper stop
    have other : s.nextKind ∉ kinds := by simpa using stop
    rw [bind_ok (accept?_avoids (State.avoids_of_nextKind other)), absent]
    rfl
  · intro s proper goes
    obtain ⟨t, ahead, listed, same⟩ := State.exists_of_nextKind ordinary (by simpa using goes)
    rw [bind_ok (accept?_ok t ahead listed)]
    refine ⟨?_, fun s' => yielding _ _ s'⟩
    have told := Told.token proper ahead
      (present ⟨s.position, t⟩ _ (proper.onto_advance ahead).proper) (Rule.exists_word productive)
    have narrows : Narrows (.seq (.token [t.kind]) c) (.seq (.token kinds) c) K t.kind :=
      .enter listed
    exact told.focus narrows.fewer (by rw [same]; exact narrows.only)

/-- A token selects the step; other tokens are left to another step. -/
theorem accept {f : Bool → Parser (Option α)} (ordinary : kind ≠ .endOfInput)
    (present : Predicts (f true) a K) (yielding : Yielding (f true))
    (productive : a.productive Nonterminal.all = true) (others : Loops goes (f false) b K)
    (apart : kind ∉ b.firsts) (solid : b.nullable = false)
    (apart' : ∀ other, goes other = true → other ∈ b.firsts) :
    Loops (fun k => k == kind || goes k) (Grammar.accept kind >>= f)
      (.either (.seq (.token [kind]) a) b) K := by
  have none : goes kind = false := by
    rw [← Bool.not_eq_true]
    exact fun here => apart (apart' kind here)
  constructor
  · intro s proper stop
    rw [Bool.or_eq_false_iff, beq_eq_false_iff_ne] at stop
    rw [bind_ok (accept_avoids (State.avoids_of_nextKind (by simpa using stop.1)))]
    exact others.stops s proper stop.2
  · intro s proper go
    -- A token that goes on is the one asked for, or one of the other step.
    by_cases next : s.nextKind = kind
    · obtain ⟨t, ahead, listed, same⟩ :=
        State.exists_of_nextKind (by simpa using ordinary.symm) (List.mem_singleton.2 next)
      have reads : Grammar.accept kind s = .ok true s.advance := bind_ok (accept?_ok t ahead listed)
      rw [bind_ok reads]
      refine ⟨?_, fun s' => yielding _ s'⟩
      have told := Told.token proper ahead (present _ (proper.onto_advance ahead).proper)
        (Rule.exists_word productive)
      rw [← same, next] at told
      have narrows : Narrows (.seq (.token [kind]) a) (.either (.seq (.token [kind]) a) b) K kind :=
        Narrows.refl.left apart solid
      exact told.focus narrows.fewer (by rw [next]; exact narrows.only)
    · have goes' : goes s.nextKind = true := by simpa [next] using go
      rw [bind_ok (accept_avoids (State.avoids_of_nextKind (by simpa using next)))]
      obtain ⟨told, some⟩ := others.steps s proper goes'
      have narrows : Narrows b (.either (.seq (.token [kind]) a) b) K s.nextKind :=
        Narrows.refl.right (by simpa [Rule.firsts, Rule.nullable] using next) rfl
      exact ⟨told.focus narrows.fewer narrows.only, some⟩

/-- The step that never goes on. -/
theorem nothing : Loops (fun _ => false) (pure (none : Option α)) (.token []) K :=
  ⟨fun _ _ _ => rfl, fun _ _ => nofun⟩

theorem congr {step : Parser (Option α)} (loops : Loops goes step a K)
    (same : a.language = b.language) : Loops goes step b K := by
  obtain ⟨stops, steps⟩ := loops
  rw [same] at steps
  exact ⟨stops, steps⟩

/-- A token selects the step, and otherwise the repetition stops. -/
theorem last {f : Bool → Parser (Option α)} (ordinary : kind ≠ .endOfInput)
    (present : Predicts (f true) a K) (yielding : Yielding (f true))
    (productive : a.productive Nonterminal.all = true) (stops : f false = pure none) :
    Loops (fun k => k == kind) (Grammar.accept kind >>= f) (.seq (.token [kind]) a) K := by
  have others : Loops (fun _ => false) (f false) (.token []) K := stops ▸ nothing
  have loops := Loops.accept ordinary present yielding productive others (by simp [Rule.firsts]) rfl
    (by simp)
  simp only [Bool.or_false] at loops
  exact loops.congr (by rw [Rule.language_either, Rule.language_token_nil, add_zero])

end Loops

end Lox.Grammar
