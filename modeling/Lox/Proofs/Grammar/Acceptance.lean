import Lox.Proofs.Grammar.Derivation

/-!
# Words that a parser reads

`Accepts` says that a parser, standing before a word, reads just that word and yields the given result,
or else halts because the word nests too deeply for it. Which of the two happens depends on the word
alone, and not on the state in which the parser meets it.
-/

namespace Lox.Grammar

/-! ## Passing a word -/

/-- The position tells how many tokens lie ahead. -/
def State.Counted (s : State) : Prop := s.position + s.ahead.length = s.last.id

/-- The state after the next token. -/
def State.advance (s : State) : State :=
  { s with ahead := s.ahead.tail, position := s.position + 1 }

/-- The second state is the first one after the tokens of the word. -/
inductive State.Passes : State → List Occurrence → State → Prop where
  | nothing (s : State) : Passes s [] s
  | token {s s' : State} {t : Token} {w : List Occurrence} (ahead : s.ahead.head? = some t)
      (others : Passes s.advance w s') : Passes s (⟨s.position, t⟩ :: w) s'

namespace State.Passes

variable {s s' s'' : State} {w w' : List Occurrence}

theorem append (first : s.Passes w s') (second : s'.Passes w' s'') : s.Passes (w ++ w') s'' := by
  induction first with
  | nothing => exact second
  | token ahead _ inductionHypothesis => exact .token ahead (inductionHypothesis second)

theorem split (passes : s.Passes (w ++ w') s'') : ∃ s', s.Passes w s' ∧ s'.Passes w' s'' := by
  induction w generalizing s with
  | nil => exact ⟨s, .nothing s, passes⟩
  | cons o rest inductionHypothesis =>
    cases passes with
    | token ahead others =>
      obtain ⟨s', first, second⟩ := inductionHypothesis others
      exact ⟨s', .token ahead first, second⟩

theorem errors (passes : s.Passes w s') : s'.errors = s.errors := by
  induction passes with
  | nothing => rfl
  | token _ _ inductionHypothesis => exact inductionHypothesis

theorem last (passes : s.Passes w s') : s'.last = s.last := by
  induction passes with
  | nothing => rfl
  | token _ _ inductionHypothesis => exact inductionHypothesis

theorem length (passes : s.Passes w s') : s.ahead.length = w.length + s'.ahead.length := by
  induction passes with
  | nothing => simp
  | @token s _ t _ ahead _ inductionHypothesis =>
    obtain ⟨rest, here⟩ := List.head?_eq_some_iff.1 ahead
    simp only [advance, here, List.tail_cons, List.length_cons] at inductionHypothesis ⊢
    omega

theorem position (passes : s.Passes w s') : s'.position = s.position + w.length := by
  induction passes with
  | nothing => rfl
  | token _ _ inductionHypothesis =>
    simp only [advance] at inductionHypothesis
    rw [inductionHypothesis, List.length_cons]
    omega

theorem counted (passes : s.Passes w s') (counted : s.Counted) : s'.Counted := by
  have length := passes.length
  have position := passes.position
  have last := passes.last
  simp only [Counted] at counted ⊢
  rw [last]
  omega

theorem upcoming (passes : s.Passes w s') : s.upcoming = w ++ s'.upcoming := by
  induction passes with
  | nothing => rfl
  | token ahead _ inductionHypothesis =>
    obtain ⟨rest, here⟩ := List.head?_eq_some_iff.1 ahead
    simpa [State.upcoming, advance, here] using inductionHypothesis

theorem eq_of_word (first : s.Passes w s') (second : s.Passes w s'') : s' = s'' := by
  induction first with
  | nothing => cases second; rfl
  | token _ _ inductionHypothesis =>
    cases second with
    | token _ others => exact inductionHypothesis others

end State.Passes

/-- Every word that lies ahead can be passed. -/
theorem State.exists_passes {s : State} {w rest : List Occurrence}
    (upcoming : s.upcoming = w ++ rest) : ∃ s', s.Passes w s' ∧ s'.upcoming = rest := by
  induction w generalizing s with
  | nil => exact ⟨s, .nothing s, upcoming⟩
  | cons o w inductionHypothesis =>
    cases ahead : s.ahead with
    | nil => simp [State.upcoming, ahead] at upcoming
    | cons t others =>
      simp only [State.upcoming, ahead, numbered_cons, List.cons_append, List.cons.injEq] at upcoming
      obtain ⟨rfl, upcoming⟩ := upcoming
      obtain ⟨s', passes, done⟩ :=
        @inductionHypothesis s.advance (by simpa [State.upcoming, advance, ahead] using upcoming)
      exact ⟨s', .token (by rw [ahead]; rfl) passes, done⟩

/-! ## What comes next -/

/-- The next token is of one of the kinds. -/
def State.Meets (kinds : List TokenKind) (s : State) : Prop :=
  ∃ t ∈ s.ahead.head?, t.kind ∈ kinds

/-- The next token, if there is one, is of none of the kinds. -/
def State.Avoids (kinds : List TokenKind) (s : State) : Prop :=
  ∀ t ∈ s.ahead.head?, t.kind ∉ kinds

def State.Ended (s : State) : Prop := s.ahead = []

theorem State.Avoids.mono {kinds kinds' : List TokenKind} {s : State} (avoids : s.Avoids kinds)
    (fewer : ∀ kind ∈ kinds', kind ∈ kinds) : s.Avoids kinds' :=
  fun t here listed => avoids t here (fewer _ listed)

theorem State.Meets.avoids {kinds kinds' : List TokenKind} {s : State} (meets : s.Meets kinds)
    (others : ∀ kind ∈ kinds, kind ∉ kinds') : s.Avoids kinds' := by
  obtain ⟨t, here, kind⟩ := meets
  intro u there
  cases Option.mem_unique here there
  exact others _ kind

theorem Starts.meets {kinds : List TokenKind} {w : List Occurrence} {s s' : State}
    (starts : Starts kinds w) (passes : s.Passes w s') : s.Meets kinds := by
  obtain ⟨o, rest, rfl, kind⟩ := starts
  cases passes with
  | token ahead => exact ⟨_, ahead, kind⟩

/-- Whoever reaches a state with the second property over the word stands in one with the first. -/
def Before (P : State → Prop) (w : List Occurrence) (P' : State → Prop) : Prop :=
  ∀ s s', s.Passes w s' → P' s' → P s

section Before

variable {P P' : State → Prop} {kinds : List TokenKind} {w : List Occurrence}

theorem Before.nil (implies : ∀ s, P' s → P s) : Before P [] P' := by
  intro s s' passes holds
  cases passes
  exact implies s holds

theorem Before.refl : Before P [] P := .nil fun _ holds => holds

theorem Before.trivial : Before (fun _ => True) w P' := fun _ _ _ _ => True.intro

theorem Before.weaken {P'' : State → Prop} (before : Before P w P')
    (implies : ∀ s, P'' s → P' s) : Before P w P'' :=
  fun s s' passes holds => before s s' passes (implies s' holds)

theorem Before.append {P'' : State → Prop} {w' : List Occurrence} (first : Before P w P')
    (second : Before P' w' P'') : Before P (w ++ w') P'' := by
  intro s s'' passes holds
  obtain ⟨s', here, there⟩ := passes.split
  exact first s s' here (second s' s'' there holds)

theorem Starts.before (starts : Starts kinds w) (implies : ∀ s : State, s.Meets kinds → P s) :
    Before P w P' :=
  fun s _ passes _ => implies s (starts.meets passes)

theorem Terminal.before {kinds : List TokenKind} (t : Terminal kinds)
    (implies : ∀ s : State, s.Meets kinds → P s) : Before P (t.occurrence :: w) P' :=
  (t.begins w).before implies

end Before

/-! ## Parsers before words -/

variable {α β : Type}

/-- The outcome of a parser: the result and the state if `fits` holds, and else too deep a nesting. -/
structure Runs (fits : Prop) (p : Parser α) (s : State) (a : α) (s' : State) : Prop where
  ok : fits → p s = .ok a s'
  halts : ¬fits → ∃ s'', p s = .error .tooDeep s''

/-- Wherever the parser meets the word with `After` behind it, it reads the word and yields `a`. -/
def Accepts (p : Parser α) (w : List Occurrence) (After : State → Prop) (a : α) : Prop :=
  ∃ fits : Prop, ∀ s s', s.Counted → s.Passes w s' → After s' → Runs fits p s a s'

theorem bind_ok {p : Parser α} {f : α → Parser β} {s s' : State} {a : α} (result : p s = .ok a s') :
    (p >>= f) s = f a s' := by
  change EStateM.bind p f s = f a s'
  rw [EStateM.bind, result]

theorem bind_error {p : Parser α} {f : α → Parser β} {s s' : State} {halt : Halt}
    (result : p s = .error halt s') : (p >>= f) s = .error halt s' := by
  change EStateM.bind p f s = .error halt s'
  rw [EStateM.bind, result]

namespace Accepts

variable {p : Parser α} {f : α → Parser β} {w w' : List Occurrence} {P P' : State → Prop}
variable {a : α} {b : β}

theorem pure : Accepts (pure a) [] P a := by
  refine ⟨True, fun s s' _ passes _ => ⟨fun _ => ?_, fun no => (no .intro).elim⟩⟩
  cases passes
  rfl

theorem tooDeep : Accepts tooDeep w P a :=
  ⟨False, fun s _ _ _ _ => ⟨False.elim, fun _ => ⟨s, rfl⟩⟩⟩

theorem bind (first : Accepts p w P a) (second : Accepts (f a) w' P' b) (before : Before P w' P') :
    Accepts (p >>= f) (w ++ w') P' b := by
  obtain ⟨fits, runs⟩ := first
  obtain ⟨fits', runs'⟩ := second
  refine ⟨fits ∧ fits', fun s s'' counted passes after => ?_⟩
  obtain ⟨s', here, there⟩ := passes.split
  have one := runs s s' counted here (before s' s'' there after)
  have two := runs' s' s'' (here.counted counted) there after
  refine ⟨fun both => (bind_ok (one.ok both.1)).trans (two.ok both.2), fun notBoth => ?_⟩
  by_cases fit : fits
  · rw [bind_ok (one.ok fit)]
    exact two.halts fun fit' => notBoth ⟨fit, fit'⟩
  · obtain ⟨stop, halts⟩ := one.halts fit
    exact ⟨stop, bind_error halts⟩

/-- Goes on with a parser that reads nothing. -/
theorem finish (first : Accepts p w P a) (last : Accepts (f a) [] P' b)
    (implies : ∀ s, P' s → P s) : Accepts (p >>= f) w P' b := by
  rw [← List.append_nil w]
  exact first.bind last (.nil implies)

theorem map {g : α → β} (accepts : Accepts p w P a) : Accepts (g <$> p) w P (g a) :=
  accepts.finish (f := fun a => Pure.pure (g a)) pure fun _ holds => holds

theorem weaken (accepts : Accepts p w P a) (implies : ∀ s, P' s → P s) : Accepts p w P' a := by
  obtain ⟨fits, runs⟩ := accepts
  exact ⟨fits, fun s s' counted passes after => runs s s' counted passes (implies s' after)⟩

/-- A parser that only looks at what lies ahead. -/
theorem of_look (look : ∀ s, P s → p s = .ok a s) : Accepts p [] P a := by
  refine ⟨True, fun s s' _ passes after => ⟨fun _ => ?_, fun no => (no .intro).elim⟩⟩
  cases passes
  exact look s after

/-- A parser that may look at the word before another one reads it. -/
theorem of_eq {q : Parser α} (accepts : Accepts q w P a)
    (same : ∀ s s', s.Passes w s' → P s' → p s = q s) : Accepts p w P a := by
  obtain ⟨fits, runs⟩ := accepts
  refine ⟨fits, fun s s' counted passes after => ?_⟩
  have run := runs s s' counted passes after
  exact ⟨fun fit => (same s s' passes after).trans (run.ok fit),
    fun unfit => by rw [same s s' passes after]; exact run.halts unfit⟩

end Accepts

/-! ## Single tokens -/

section Tokens

variable {kinds : List TokenKind} {kind : TokenKind} {fault : ParseFault} {w : List Occurrence}
variable {P : State → Prop} {b : β}

theorem accept?_ok {s : State} (t : Token) (ahead : s.ahead.head? = some t) (listed : t.kind ∈ kinds) :
    accept? kinds s = .ok (some ⟨s.position, t⟩) s.advance := by
  obtain ⟨rest, here⟩ := List.head?_eq_some_iff.1 ahead
  simp [accept?, here, listed, State.advance]

theorem accept?_avoids {s : State} (avoids : s.Avoids kinds) : accept? kinds s = .ok none s := by
  cases ahead : s.ahead with
  | nil => simp [accept?, ahead]
  | cons t rest =>
    have unlisted : t.kind ∉ kinds := avoids t (by rw [ahead]; rfl)
    simp [accept?, ahead, unlisted]

theorem next_meets {s : State} (meets : s.Meets [kind]) : next kind s = .ok true s := by
  obtain ⟨t, ahead, same⟩ := meets
  obtain ⟨rest, here⟩ := List.head?_eq_some_iff.1 ahead
  rw [List.mem_singleton] at same
  simp [next, here, same]

theorem next_avoids {s : State} (avoids : s.Avoids [kind]) : next kind s = .ok false s := by
  cases ahead : s.ahead with
  | nil => simp [next, ahead]
  | cons t rest =>
    have other : t.kind ∉ [kind] := avoids t (by rw [ahead]; rfl)
    rw [List.mem_singleton] at other
    simp [next, ahead, other]

theorem atEnd_meets {s : State} (meets : s.Meets kinds) : atEnd s = .ok false s := by
  obtain ⟨t, ahead, -⟩ := meets
  obtain ⟨rest, here⟩ := List.head?_eq_some_iff.1 ahead
  simp [atEnd, here]

theorem accept_avoids {s : State} (avoids : s.Avoids [kind]) : accept kind s = .ok false s :=
  bind_ok (accept?_avoids avoids)

namespace Accepts

theorem accept?_some (t : Terminal kinds) :
    Accepts (accept? kinds) [t.occurrence] (fun _ => True) (some t.occurrence) := by
  obtain ⟨occurrence, listed⟩ := t
  refine ⟨True, fun s s' _ passes _ => ⟨fun _ => ?_, fun no => (no .intro).elim⟩⟩
  cases passes with
  | token ahead others =>
    cases others
    exact accept?_ok _ ahead listed

/-- A token of one of the kinds comes first. -/
theorem token (t : Terminal kinds) {f : Option Occurrence → Parser β}
    (rest : Accepts (f (some t.occurrence)) w P b) :
    Accepts (accept? kinds >>= f) (t.occurrence :: w) P b :=
  (accept?_some t).bind rest .trivial

/-- No token of the kinds comes first. -/
theorem noToken {f : Option Occurrence → Parser β} (rest : Accepts (f none) w P b)
    (before : Before (State.Avoids kinds) w P) : Accepts (accept? kinds >>= f) w P b :=
  (of_look fun _ => accept?_avoids).bind rest before

theorem accept_some (t : Terminal [kind]) {f : Bool → Parser β} (rest : Accepts (f true) w P b) :
    Accepts (accept kind >>= f) (t.occurrence :: w) P b :=
  (token t pure : Accepts (accept kind) [t.occurrence] (fun _ => True) true).bind rest .trivial

theorem accept_none {f : Bool → Parser β} (rest : Accepts (f false) w P b)
    (before : Before (State.Avoids [kind]) w P) : Accepts (accept kind >>= f) w P b :=
  (noToken pure .refl : Accepts (accept kind) [] (State.Avoids [kind]) false).bind rest before

theorem expect (t : Terminal [kind]) {f : Occurrence → Parser β}
    (rest : Accepts (f t.occurrence) w P b) :
    Accepts (expect kind fault >>= f) (t.occurrence :: w) P b :=
  (token t pure : Accepts (Grammar.expect kind fault) [t.occurrence] (fun _ => True) t.occurrence).bind
    rest .trivial

theorem skip (t : Terminal [kind]) {f : Unit → Parser β} (rest : Accepts (f ()) w P b) :
    Accepts (skip kind fault >>= f) (t.occurrence :: w) P b :=
  (expect t pure : Accepts (Grammar.skip kind fault) [t.occurrence] (fun _ => True) ()).bind
    rest .trivial

theorem next_true {f : Bool → Parser β} (rest : Accepts (f true) w P b)
    (before : Before (State.Meets [kind]) w P) : Accepts (next kind >>= f) w P b :=
  (of_look fun _ => next_meets).bind rest before

theorem next_false {f : Bool → Parser β} (rest : Accepts (f false) w P b)
    (before : Before (State.Avoids [kind]) w P) : Accepts (next kind >>= f) w P b :=
  (of_look fun _ => next_avoids).bind rest before

end Accepts

end Tokens

/-! ## Repetition -/

/-- The tokens of a word are fuel enough for as many items, and one step more. -/
theorem State.Passes.fuel {s s' : State} {w : List Occurrence} {n : Nat} (passes : s.Passes w s')
    (counted : s.Counted) (short : n ≤ w.length) :
    ∃ fuel, s.remaining + 1 = n + (fuel + 1) := by
  have length := passes.length
  refine ⟨s.remaining - n, ?_⟩
  simp only [State.Counted] at counted
  simp only [State.remaining]
  omega

/-- Before the word, a repetition that has `count` results so far goes through all of the items. -/
structure Repeats (step : Nat → Parser (Option α)) (count : Nat) (w : List Occurrence)
    (After : State → Prop) (items : List α) : Prop where
  short : items.length ≤ w.length
  goes : ∃ fits : Prop, ∀ fuel found s s', s.Counted → s.Passes w s' → After s' →
    (fits → manyFrom step (items.length + fuel) count found s =
      manyFrom step fuel (count + items.length) (items.reverse ++ found) s') ∧
    (¬fits → ∃ s'', manyFrom step (items.length + fuel) count found s = .error .tooDeep s'')

namespace Repeats

variable {step : Nat → Parser (Option α)} {count : Nat} {w w' : List Occurrence}
variable {P P' : State → Prop} {items : List α} {a : α}

theorem nil : Repeats step count [] P [] := by
  refine ⟨Nat.le_refl 0, True, fun fuel found s s' _ passes _ => ?_⟩
  cases passes
  exact ⟨fun _ => by simp, fun no => (no .intro).elim⟩

theorem append {items' : List α} (first : Repeats step count w P items)
    (second : Repeats step (count + items.length) w' P' items') (before : Before P w' P') :
    Repeats step count (w ++ w') P' (items ++ items') := by
  obtain ⟨short, fits, rest⟩ := first
  obtain ⟨short', fits', rest'⟩ := second
  constructor
  · simp only [List.length_append]
    omega
  refine ⟨fits ∧ fits', fun fuel found s s'' counted passes after => ?_⟩
  -- While the first part is read, the fuel for the second is still to be spent; the second part then
  -- has the items of the first behind it.
  obtain ⟨s', here, there⟩ := passes.split
  obtain ⟨ok, halts⟩ :=
    rest (items'.length + fuel) found s s' counted here (before s' s'' there after)
  obtain ⟨ok', halts'⟩ :=
    rest' fuel (items.reverse ++ found) s' s'' (here.counted counted) there after
  rw [List.length_append, Nat.add_assoc]
  constructor
  · intro both
    rw [ok both.1, ok' both.2]
    simp [Nat.add_assoc]
  · intro notBoth
    by_cases fit : fits
    · rw [ok fit]
      exact halts' fun fit' => notBoth ⟨fit, fit'⟩
    · exact halts fit

theorem single (accepts : Accepts (step count) w P (some a)) (nonempty : 0 < w.length) :
    Repeats step count w P [a] := by
  obtain ⟨fits, runs⟩ := accepts
  refine ⟨nonempty, fits, fun fuel found s s' counted passes after => ?_⟩
  have run := runs s s' counted passes after
  rw [List.length_singleton, Nat.add_comm 1, manyFrom]
  refine ⟨fun fit => bind_ok (run.ok fit), fun unfit => ?_⟩
  obtain ⟨stop, halts⟩ := run.halts unfit
  exact ⟨stop, bind_error halts⟩

theorem cons (first : Accepts (step count) w P (some a)) (nonempty : 0 < w.length)
    (others : Repeats step (count + 1) w' P' items) (before : Before P w' P') :
    Repeats step count (w ++ w') P' (a :: items) :=
  (single first nonempty).append others before

theorem weaken (repeats : Repeats step count w P items) (implies : ∀ s, P' s → P s) :
    Repeats step count w P' items := by
  obtain ⟨short, fits, rest⟩ := repeats
  exact ⟨short, fits, fun fuel found s s' counted passes after =>
    rest fuel found s s' counted passes (implies s' after)⟩

/-- Where the step yields nothing more, the repetition ends with the items. -/
theorem many (repeats : Repeats step 0 w P items) (stops : ∀ s, P s → step items.length s = .ok none s) :
    Accepts (many step) w P items := by
  obtain ⟨short, fits, rest⟩ := repeats
  refine ⟨fits, fun s s' counted passes after => ?_⟩
  obtain ⟨fuel, enough⟩ := passes.fuel counted short
  obtain ⟨ok, halts⟩ := rest (fuel + 1) [] s s' counted passes after
  refine ⟨fun fit => ?_, fun unfit => ?_⟩
  · rw [Grammar.many, enough, ok fit, manyFrom, Nat.zero_add, bind_ok (stops s' after)]
    simp
    rfl
  · rw [Grammar.many, enough]
    exact halts unfit

end Repeats

end Lox.Grammar
