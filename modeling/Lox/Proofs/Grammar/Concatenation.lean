import Lox.Proofs.Grammar.Language

/-!
# Parsing two programs as one

A declaration ends with a token of its own, so no declaration of the first program reads a token of the
second. Each is parsed with the whole room for nesting, so the joined text fits where both do.
-/

namespace Lox.Grammar

/-- How many declarations were read before plays no part. -/
theorem manyFrom_recount {α : Type} {p : Parser α} (fuel count count' : Nat) (found : List α) :
    manyFrom (unlessEnded p) fuel count found = manyFrom (unlessEnded p) fuel count' found := by
  induction fuel generalizing count count' found with
  | zero => rfl
  | succ fuel inductionHypothesis =>
    rw [manyFrom, manyFrom]
    apply bind_congr
    intro result
    cases result with
    | none => rfl
    | some a => exact inductionHypothesis _ _ _

theorem State.Ended.avoids {s : State} (ended : s.Ended) (kinds : List TokenKind) :
    s.Avoids kinds := by
  intro t here
  rw [State.Ended] at ended
  simp [ended] at here

/-- A repetition that stands before the declarations reads them all, and then goes on. -/
def ReadsOn (depth : Nat) (d : Derivation .declarations) : Prop :=
  ∀ fuel found s s', s.Counted → s.Passes d.yield s' → s'.Avoids [.kwElse] →
    manyFrom (unlessEnded (declaration (expression depth) depth)) (d.tree.length + fuel) 0 found s =
      manyFrom (unlessEnded (declaration (expression depth) depth)) fuel 0
        ((d.tree.map some).reverse ++ found) s'

variable {depth start : Nat} {body body' : List Token} {last last' closing : Token}

theorem declarations_length (d : Derivation .declarations) : d.tree.length ≤ d.yield.length := by
  have repeats := d.accepted 0 0 (unlessEnded _) unlessEnded_steps 0
  simpa using repeats.short

/-- Declarations that were parsed as a program nest little enough to be read in another one. -/
theorem readsOn_of_parse {d : Derivation .declarations} (ordinary : IsBody body)
    (ended : last.kind = .endOfInput) (word : d.yield = numbered start body) {parsed : Parse}
    (parses : parse? depth start (body ++ [last]) = some parsed) : ReadsOn depth d := by
  obtain ⟨-, fits, goes⟩ := d.accepted depth depth (unlessEnded _) unlessEnded_steps 0
  simp only [List.length_map] at goes
  -- Were the declarations nested too deep, the parse of them alone would have stopped there.
  have fit : fits := by
    by_contra unfit
    obtain ⟨counted, s', passes, all⟩ := State.initial_passes start ordinary ended
    rw [← word] at passes
    obtain ⟨fuel, enough⟩ := passes.fuel counted (declarations_length d)
    obtain ⟨stop, halts⟩ := (goes (fuel + 1) [] _ s' counted passes (all.avoids _)).2 unfit
    rw [← enough] at halts
    have failed : program depth (State.initial start (body ++ [last])) = .error .tooDeep stop :=
      bind_error halts
    obtain ⟨s, outcome, -⟩ := parse?_eq_some_iff.1 parses
    rw [failed] at outcome
    cases outcome
  intro fuel found s s' counted passes avoids
  rw [(goes fuel found s s' counted passes avoids).1 fit]
  exact congrFun (manyFrom_recount _ _ _ _) s'

/-- Two programs without a fault, one after the other, are read as one program. -/
theorem parse?_append (ordinary : IsBody body) (ordinary' : IsBody body')
    (ended : last.kind = .endOfInput) (ended' : last'.kind = .endOfInput)
    (closed : closing.kind = .endOfInput) {statements statements' : List Stmt}
    (parses : parse? depth start (body ++ [last]) = some ⟨statements, []⟩)
    (parses' : parse? depth (start + body.length) (body' ++ [last']) = some ⟨statements', []⟩) :
    parse? depth start (body ++ body' ++ [closing]) = some ⟨statements ++ statements', []⟩ := by
  obtain ⟨d, word, rfl⟩ := parse?_sound ordinary ended parses rfl
  obtain ⟨d', word', rfl⟩ := parse?_sound ordinary' ended' parses' rfl
  have reads := readsOn_of_parse ordinary ended word parses
  have reads' := readsOn_of_parse ordinary' ended' word' parses'
  have both : IsBody (body ++ body') := List.forall_mem_append.2 ⟨ordinary, ordinary'⟩
  obtain ⟨counted, s'', passes, all⟩ := State.initial_passes start both closed
  rw [numbered_append, ← word, ← word'] at passes
  obtain ⟨s', here, there⟩ := passes.split
  have avoids := declarations_before d' s' s'' there (all.avoids _)
  -- the fuel for the tokens of both words is enough for the declarations of both
  obtain ⟨fuel, enough⟩ := passes.fuel counted (n := d.tree.length + d'.tree.length) (by
    have length := declarations_length d
    have length' := declarations_length d'
    simp only [List.length_append]
    omega)
  have read : many (unlessEnded (declaration (expression depth) depth))
      (State.initial start (body ++ body' ++ [closing])) =
        .ok (d.tree.map some ++ d'.tree.map some) s'' := by
    rw [many, enough, Nat.add_assoc, reads _ _ _ _ counted here avoids,
      reads' _ _ _ _ (here.counted counted) there (all.avoids _), manyFrom,
      bind_ok (unlessEnded_stops all)]
    simp
    rfl
  have result : program depth (State.initial start (body ++ body' ++ [closing])) =
      .ok ((d.tree.map some ++ d'.tree.map some).filterMap id) s'' := bind_ok read
  rw [parse?, result]
  simp only [passes.errors, State.initial_eq both closed]
  simp

end Lox.Grammar
