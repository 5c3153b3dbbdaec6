import Lox.Proofs.Cursor.Boundaries
import Lox.Proofs.Grammar.Acceptance
import Mathlib.Data.List.Basic

/-!
# Walks that follow a parser

`Follows` says that a walk does what a parser does, from wherever both stand, and that its log stays in
order meanwhile. Since a parser has no counterpart to a walk that leaves the token list or to an endless
loop, a walk that follows a parser does neither.
-/

namespace Lox.Cursor

open Grammar (Halt State Parser)

/-! ## The log -/

/-- The fault was found at the token at index `i`. -/
def Anchored (I : Input) (e : ParseError) (i : Nat) : Prop :=
  ∃ t, I.tokens[i]? = some t ∧ e.place = ⟨I.start + i, t⟩

/-- The first fault is found at an earlier token than the second, unless both are found at the end. -/
def Precedes (I : Input) (e e' : ParseError) : Prop :=
  e.place.id < e'.place.id ∨ e.place.id = I.start + I.stop ∧ e'.place.id = I.start + I.stop

/-- The fault is found at a token before the index, unless both are at the end. -/
def Behind (I : Input) (position : Nat) (e : ParseError) : Prop :=
  e.place.id < I.start + position ∨ e.place.id = I.start + I.stop ∧ position = I.stop

/-- A finished declaration has read something; if it has no result, a fault was noted in it. -/
structure InOrder (I : Input) (a : Attempt) : Prop where
  bounded : a.last ≤ I.stop
  progress : a.first < a.last
  caught : ∀ e, a.raised? = some e →
    0 < a.noted ∧
      ∃ i, a.first ≤ i ∧ i ≤ a.last ∧ Anchored I e i ∧ Resumes I.tokens i a.last

/-- The faults that declarations ended with. -/
def caught (attempts : List Attempt) : List ParseError := attempts.filterMap Attempt.raised?

/-- The indices on the way to a position never fall. -/
structure Rising (visited : List Nat) (position : Nat) : Prop where
  reached : ∀ k ∈ visited, k ≤ position
  ordered : visited.Pairwise (· ≤ ·)

theorem Rising.onward {visited : List Nat} {position : Nat} (rising : Rising visited position)
    (n : Nat) : Rising (visited ++ List.range' (position + 1) n) (position + n) := by
  obtain ⟨reached, ordered⟩ := rising
  constructor
  · intro k visited
    obtain old | new := List.mem_append.1 visited
    · exact (reached k old).trans (Nat.le_add_right _ n)
    · obtain ⟨j, bound, rfl⟩ := List.mem_range'.1 new
      omega
  · refine List.pairwise_append.2 ⟨ordered, List.pairwise_le_range', fun k old j new => ?_⟩
    obtain ⟨m, -, rfl⟩ := List.mem_range'.1 new
    have := reached k old
    omega

/--
The log is in order. Each raised fault has ended one declaration, except the one that is `pending?`, on its
way to the declaration around it.
-/
structure Sound (I : Input) (c : Cursor) (pending? : Option ParseError) : Prop where
  rising : Rising c.visited c.position
  raised : c.errors.filter (·.fault.raised) = caught c.attempts ++ pending?.toList
  apart : (caught c.attempts).Pairwise (Precedes I)
  behind : ∀ e ∈ caught c.attempts, Behind I c.position e
  pending : ∀ e, pending? = some e → Anchored I e c.position
  attempts : ∀ a ∈ c.attempts, InOrder I a

variable {I : Input} {s s' : State} {c c' c'' : Cursor} {e : ParseError}

theorem Behind.moved {position : Nat} (behind : Behind I position e) (n : Nat)
    (bounded : position + n ≤ I.stop) : Behind I (position + n) e := by
  simp only [Behind] at behind ⊢
  omega

theorem Sound.moved (sound : Sound I c none) (n : Nat) (bounded : c.position + n ≤ I.stop) :
    Sound I (c.moved n) none :=
  { sound with
    rising := sound.rising.onward n
    behind := fun e before => (sound.behind e before).moved n bounded
    pending := fun _ absent => nomatch absent }

/-- A fault that ends no declaration leaves the log as it is. -/
theorem Sound.note (sound : Sound I c none) (other : e.fault.raised = false) :
    Sound I { c with errors := c.errors ++ [e] } none :=
  { sound with
    raised := by
      rw [List.filter_append, sound.raised]
      simp [other, caught] }

theorem Sound.raise (sound : Sound I c none) (raised : e.fault.raised = true)
    (anchored : Anchored I e c.position) :
    Sound I { c with errors := c.errors ++ [e] } (some e) :=
  { sound with
    raised := by
      rw [List.filter_append, sound.raised]
      simp [raised, caught]
    pending := fun e' same => by
      cases same
      exact anchored }

/-! ## Finished declarations -/

/-- The cursor after a declaration is finished. -/
def logged (c : Cursor) (a : Attempt) : Cursor := { c with attempts := c.attempts ++ [a] }

theorem caught_logged (attempts : List Attempt) (a : Attempt) :
    caught (attempts ++ [a]) = caught attempts ++ a.raised?.toList := by
  cases raised : a.raised? <;> simp [caught, raised]

theorem Sound.logged (sound : Sound I c none) {a : Attempt} (result : a.raised? = none)
    (good : InOrder I a) : Sound I (c.logged a) none := by
  have same : caught (c.attempts ++ [a]) = caught c.attempts := by
    rw [caught_logged, result, Option.toList_none, List.append_nil]
  exact
    { rising := sound.rising
      raised := same ▸ sound.raised
      apart := same ▸ sound.apart
      behind := same ▸ sound.behind
      pending := fun _ absent => nomatch absent
      attempts := List.forall_mem_append.2 ⟨sound.attempts, by simpa using good⟩ }

/-- A fault that lies behind a position precedes any fault at that position. -/
theorem Behind.precedes {position : Nat} {e' : ParseError} (behind : Behind I position e)
    (anchored : Anchored I e' position) : Precedes I e e' := by
  obtain ⟨t, -, place⟩ := anchored
  simp only [Behind] at behind
  simp only [Precedes, place]
  omega

/-- The declaration that catches the pending fault is finished, and the cursor has gone on. -/
theorem Sound.recovered (sound : Sound I c (some e)) {n : Nat} (bounded : c.position + n ≤ I.stop)
    (further : c.position < I.stop → 0 < n) {a : Attempt} (result : a.raised? = some e)
    (good : InOrder I a) : Sound I ((c.moved n).logged a) none := by
  have all : caught (c.attempts ++ [a]) = caught c.attempts ++ [e] := by
    rw [caught_logged, result, Option.toList_some]
  have anchored := sound.pending e rfl
  -- the cursor has passed the offending token, or both are at the end
  have here : Behind I (c.position + n) e := by
    obtain ⟨t, -, place⟩ := anchored
    simp only [Behind, place]
    omega
  have apart : (caught c.attempts ++ [e]).Pairwise (Precedes I) := by
    refine List.pairwise_append.2 ⟨sound.apart, List.pairwise_singleton _ _, fun e' before e'' last => ?_⟩
    obtain rfl := List.mem_singleton.1 last
    exact (sound.behind e' before).precedes anchored
  have behind : ∀ e' ∈ caught c.attempts ++ [e], Behind I (c.position + n) e' :=
    List.forall_mem_append.2
      ⟨fun e' before => (sound.behind e' before).moved n bounded, by simpa using here⟩
  exact
    { rising := sound.rising.onward n
      raised := by
        rw [Option.toList_none, List.append_nil]
        exact sound.raised.trans all.symm
      apart := all ▸ apart
      behind := all ▸ behind
      pending := fun _ absent => nomatch absent
      attempts := List.forall_mem_append.2 ⟨sound.attempts, by simpa using good⟩ }

/-! ## Following -/

/-- A walk has gone on from one cursor to another. -/
structure Leads (c c' : Cursor) : Prop where
  position : c.position ≤ c'.position
  errors : c.errors.length ≤ c'.errors.length

theorem Leads.refl (c : Cursor) : Leads c c := ⟨le_rfl, le_rfl⟩

theorem Leads.trans (first : Leads c c') (second : Leads c' c'') : Leads c c'' :=
  ⟨first.position.trans second.position, first.errors.trans second.errors⟩

theorem Leads.moved (c : Cursor) (n : Nat) : Leads c (c.moved n) :=
  ⟨Nat.le_add_right _ n, le_rfl⟩

/--
A parser and a walk, of which the latter began at the cursor `c`, end alike. If they end with a result
that is in `E`, then they have read a token.
-/
inductive Outcome {α : Type} (I : Input) (E : α → Prop) (c : Cursor) :
    EStateM.Result Halt State α → EStateM.Result Stop Cursor α → Prop
  | ok {a : α} {s' : State} {c' : Cursor} (stands : Stands I s' c') (sound : Sound I c' none)
      (leads : Leads c c') (eats : E a → c.position < c'.position) :
      Outcome I E c (.ok a s') (.ok a c')
  | raised {e : ParseError} {s' : State} {c' : Cursor} (stands : Stands I s' c')
      (sound : Sound I c' (some e)) (leads : Leads c c')
      (noted : c.errors.length < c'.errors.length) :
      Outcome I E c (.error .fault s') (.error (.raised e) c')
  | tooDeep {s' : State} {c' : Cursor} : Outcome I E c (.error .tooDeep s') (.error .tooDeep c')

/-- The walk does what the parser does, and reads a token if the result is in `E`. -/
def Follows {α : Type} (I : Input) (E : α → Prop) (q : Parser α) (p : Walk α) : Prop :=
  ∀ s c, Stands I s c → Sound I c none → Outcome I E c (q s) (p c)

/-- The walk does what the parser does, and reads a token if there is a result. -/
abbrev Eats {α : Type} (I : Input) (q : Parser α) (p : Walk α) : Prop := Follows I (fun _ => True) q p

/-- The walk does what the parser does. -/
abbrev Keeps {α : Type} (I : Input) (q : Parser α) (p : Walk α) : Prop :=
  Follows I (fun _ => False) q p

section Rules

variable {α β : Type} {E : α → Prop} {E' : β → Prop} {q : Parser α} {p : Walk α}
  {f : α → Parser β} {g : α → Walk β}

/-- The outcome of a walk that began earlier than its last part. -/
theorem Outcome.since {F : α → Prop} {r : EStateM.Result Halt State α}
    {r' : EStateM.Result Stop Cursor α} (outcome : Outcome I E c' r r') (leads : Leads c c')
    (eaten : ∀ a, F a → c.position < c'.position ∨ E a) : Outcome I F c r r' := by
  cases outcome with
  | ok stands sound further eats =>
    refine .ok stands sound (leads.trans further) fun member => ?_
    obtain before | now := eaten _ member
    · exact Nat.lt_of_lt_of_le before further.position
    · exact Nat.lt_of_le_of_lt leads.position (eats now)
  | raised stands sound further noted =>
    exact .raised stands sound (leads.trans further) (Nat.lt_of_le_of_lt leads.errors noted)
  | tooDeep => exact .tooDeep

theorem Outcome.bind (first : Outcome I E c (q s) (p c))
    (second : ∀ a s' c', Stands I s' c' → Sound I c' none → Leads c c' →
      (E a → c.position < c'.position) → Outcome I E' c (f a s') (g a c')) :
    Outcome I E' c ((q >>= f) s) ((p >>= g) c) := by
  generalize here : q s = r, walked : p c = r' at first
  cases first with
  | ok stands sound leads eats =>
    rw [Grammar.bind_ok here, bind_ok walked]
    exact second _ _ _ stands sound leads eats
  | raised stands sound leads noted =>
    rw [Grammar.bind_error here, bind_error walked]
    exact .raised stands sound leads noted
  | tooDeep =>
    rw [Grammar.bind_error here, bind_error walked]
    exact .tooDeep

namespace Follows

theorem mono (follows : Follows I E q p) {F : α → Prop} (weaker : ∀ a, F a → E a) :
    Follows I F q p := fun s c stands sound =>
  (follows s c stands sound).since (.refl c) fun a member => .inr (weaker a member)

theorem pure {a : α} (idle : ¬E a) : Follows I E (pure a) (pure a) :=
  fun _ c stands sound => .ok stands sound (.refl c) fun member => absurd member idle

/-- What comes next must read a token only if what came first has not. -/
theorem bindWith (first : Follows I E q p)
    (second : ∀ a, Follows I (fun b => E' b ∧ ¬E a) (f a) (g a)) :
    Follows I E' (q >>= f) (p >>= g) := by
  intro s c stands sound
  refine (first s c stands sound).bind fun a s' c' stands' sound' leads eats => ?_
  refine (second a s' c' stands' sound').since leads fun b member => ?_
  by_cases eaten : E a
  · exact .inl (eats eaten)
  · exact .inr ⟨member, eaten⟩

theorem after (first : Eats I q p) (second : ∀ a, Keeps I (f a) (g a)) :
    Follows I E' (q >>= f) (p >>= g) :=
  first.bindWith fun a => (second a).mono fun _ member => member.2 trivial

theorem bind (first : Keeps I q p) (second : ∀ a, Follows I E' (f a) (g a)) :
    Follows I E' (q >>= f) (p >>= g) :=
  first.bindWith fun a => (second a).mono fun _ member => member.1

theorem map {h : α → β} (follows : Eats I q p) : Follows I E' (h <$> q) (h <$> p) :=
  follows.after fun _ => pure not_false

theorem tooDeep : Follows I E Grammar.tooDeep tooDeep := fun _ _ _ _ => .tooDeep

/-! ## Single tokens -/

theorem atEnd {f : Bool → Parser β} {g : Bool → Walk β}
    (rest : ∀ s c, Stands I s c → Sound I c none →
      Outcome I E' c (f s.ahead.isEmpty s) (g s.ahead.isEmpty c)) :
    Follows I E' (Grammar.atEnd >>= f) (Cursor.atEnd >>= g) := by
  intro s c stands sound
  rw [Grammar.bind_ok (rfl : Grammar.atEnd s = .ok s.ahead.isEmpty s), bind_ok stands.atEnd]
  exact rest s c stands sound

theorem next {kind : TokenKind} {f : Bool → Parser β} {g : Bool → Walk β}
    (rest : ∀ found, Follows I E' (f found) (g found)) :
    Follows I E' (Grammar.next kind >>= f) (Cursor.next kind >>= g) := by
  intro s c stands sound
  have looks : Grammar.next kind s = .ok (s.ahead.head?.any (·.kind == kind)) s := by
    unfold Grammar.next
    cases s.ahead <;> rfl
  rw [Grammar.bind_ok looks, bind_ok (stands.next kind)]
  exact rest _ s c stands sound

theorem accept? {kinds : List TokenKind} {f : Option Occurrence → Parser β}
    {g : Option Occurrence → Walk β} (some : ∀ found, Keeps I (f (some found)) (g (some found)))
    (none : Follows I E' (f none) (g none)) :
    Follows I E' (Grammar.accept? kinds >>= f) (Cursor.accept? kinds >>= g) := by
  have first : Follows I (fun found => found.isSome = true) (Grammar.accept? kinds)
      (Cursor.accept? kinds) := by
    intro s c stands sound
    rw [stands.accept?]
    unfold Grammar.accept?
    obtain ⟨ended, -⟩ | ⟨t, rest, ahead, inside, -, -, further⟩ := stands.cases
    · rw [ended]
      exact .ok stands sound (.refl c) nofun
    · simp only [ahead]
      by_cases listed : kinds.contains t.kind = true
      · simp only [listed, if_true]
        exact .ok further (sound.moved 1 inside) (.moved c 1) fun _ => Nat.lt_succ_self _
      · simp only [listed]
        exact .ok stands sound (.refl c) nofun
  refine first.bindWith fun found => ?_
  cases found with
  | none => exact none.mono fun _ member => member.1
  | some found => exact (some found).mono fun _ member => member.2 rfl

theorem accept {kind : TokenKind} {f : Bool → Parser β} {g : Bool → Walk β}
    (here : Keeps I (f true) (g true)) (absent : Follows I E' (f false) (g false)) :
    Follows I E' (Grammar.accept kind >>= f) (Cursor.accept kind >>= g) := by
  have parser : (Grammar.accept kind >>= f) =
      (Grammar.accept? [kind] >>= fun found => f found.isSome) := by
    unfold Grammar.accept
    simp only [bind_assoc, pure_bind]
  have walk : (Cursor.accept kind >>= g) =
      (Cursor.accept? [kind] >>= fun found => g found.isSome) := by
    unfold Cursor.accept
    simp only [bind_assoc, pure_bind]
  rw [parser, walk]
  exact accept? (fun _ => here) absent

/-! ## Faults -/

theorem note {fault : ParseFault} (other : fault.raised = false) (place : Occurrence) :
    Keeps I (Grammar.note fault place) (Cursor.note fault place) := by
  intro s c stands sound
  refine .ok { stands with errors := ?_ } (sound.note other) ⟨le_rfl, ?_⟩ False.elim
  · rw [Array.toList_push, stands.errors]
  · simp

theorem noteHere {fault : ParseFault} (other : fault.raised = false) :
    Keeps I (Grammar.noteHere fault) (Cursor.noteHere fault) := by
  intro s c stands sound
  have walk : Cursor.noteHere fault c = Cursor.note fault s.current c := bind_ok stands.current
  rw [walk]
  exact note other s.current s c stands sound

theorem fail {fault : ParseFault} (raised : fault.raised = true) :
    Follows I E (Grammar.fail fault) (Cursor.fail fault) := by
  intro s c stands sound
  have walk : Cursor.fail (α := α) fault c = .error (.raised ⟨fault, s.current⟩)
      { c with errors := c.errors ++ [⟨fault, s.current⟩] } := bind_ok stands.current
  rw [walk]
  refine .raised { stands with errors := ?_ } (sound.raise raised ?_) ⟨le_rfl, ?_⟩ ?_
  · rw [Array.toList_push, stands.errors]
  · exact ⟨s.current.token, stands.tokens ▸ stands.here, stands.start ▸ stands.place⟩
  · simp
  · simp

theorem expect {kind : TokenKind} {fault : ParseFault} {E : Occurrence → Prop}
    (raised : fault.raised = true) :
    Follows I E (Grammar.expect kind fault) (Cursor.expect kind fault) :=
  accept? (fun _ => pure not_false) (fail raised)

theorem skip {kind : TokenKind} {fault : ParseFault} {E : Unit → Prop}
    (raised : fault.raised = true) :
    Follows I E (Grammar.skip kind fault) (Cursor.skip kind fault) :=
  (expect raised).after fun _ => pure not_false

end Follows

/-! ## Optional parts -/

/-- A part that is left out if a token of the given kind is next. -/
theorem Follows.unless {kind : TokenKind} {absent : α} (part : Keeps I q p)
    (rest : ∀ a, Follows I E' (f a) (g a)) :
    Follows I E'
      (Grammar.next kind >>= fun found => if found = true then Pure.pure absent >>= f else q >>= f)
      (Cursor.next kind >>= fun found => if found = true then Pure.pure absent >>= g else p >>= g) := by
  refine .next fun found => ?_
  cases found with
  | true => exact rest absent
  | false => exact part.bind rest

/-- A part that is there if a token of the given kind comes first. -/
theorem Follows.optional {kind : TokenKind} {f : Option α → Parser β} {g : Option α → Walk β}
    (part : Eats I q p) (rest : ∀ a, Keeps I (f a) (g a)) (absent : Follows I E' (f none) (g none)) :
    Follows I E'
      (Grammar.accept kind >>= fun found =>
        if found = true then some <$> q >>= f else Pure.pure none >>= f)
      (Cursor.accept kind >>= fun found =>
        if found = true then some <$> p >>= g else Pure.pure none >>= g) := by
  refine .accept ?_ absent
  exact Follows.bind part.map rest

/-! ## Repetition -/

section Repetition

variable {step : Nat → Parser (Option α)} {walkStep : Nat → Walk (Option α)}
  (each : ∀ count, Follows I (fun found => found.isSome = true) (step count) (walkStep count))
include each

/-- The rounds suffice on both sides, since each round but the last reads a token. -/
theorem Follows.manyFrom (rounds : Nat) : ∀ (fuel count : Nat) (found : List α) (s : State) (c : Cursor),
    Stands I s c → Sound I c none → I.stop - c.position < rounds → I.stop - c.position < fuel →
    Outcome I (fun _ => False) c (Grammar.manyFrom step fuel count found s)
      (Cursor.manyFrom walkStep rounds count found c) := by
  induction rounds with
  | zero => exact fun _ _ _ _ _ _ _ enough => absurd enough (Nat.not_lt_zero _)
  | succ rounds inductionHypothesis =>
    intro fuel count found s c stands sound enough enough'
    cases fuel with
    | zero => exact absurd enough' (Nat.not_lt_zero _)
    -- after a round with a result fewer tokens are left, so one round less is enough for them
    | succ fuel =>
      refine (each count s c stands sound).bind fun result s' c' stands' sound' leads eats => ?_
      cases result with
      | none => exact .ok stands' sound' leads False.elim
      | some a =>
        have further := eats rfl
        have bounded := stands'.bounded
        exact (inductionHypothesis fuel (count + 1) (a :: found) s' c' stands' sound' (by omega)
          (by omega)).since leads fun _ => .inr

theorem Follows.many : Keeps I (Grammar.many step) (Cursor.many walkStep) := by
  intro s c stands sound
  have bounded := stands.bounded
  refine Follows.manyFrom each _ _ 0 [] s c stands sound ?_ ?_
  · have := I.stop_lt
    rw [stands.tokens]
    omega
  · simp only [State.remaining, stands.last, stands.position]
    omega

end Repetition

/-! ## Declarations -/

/-- Before the end the walk does what the parser does, and reads a token if there is a result. -/
def Goes (I : Input) (q : Parser α) (p : Walk α) : Prop :=
  ∀ s c, Stands I s c → Sound I c none → c.position < I.stop → Outcome I (fun _ => True) c (q s) (p c)

theorem Follows.recovering (follows : Eats I q p) :
    Goes I (Grammar.recovering q) (Cursor.recovering p) := by
  intro s c stands sound before
  have outcome := follows s c stands sound
  unfold Grammar.recovering Cursor.recovering
  generalize q s = r, p c = r' at outcome
  cases outcome with
  | @ok a s' c' stands' sound' leads eats =>
    have finishes : (do finish c none; return some a : Walk (Option α)) c' =
        .ok (some a) (c'.logged
          ⟨c.position, c'.position, c'.errors.length - c.errors.length, none⟩) := rfl
    simp only [finishes]
    refine .ok { stands' with } (sound'.logged rfl ?_) ⟨leads.position, leads.errors⟩ eats
    exact ⟨stands'.bounded, eats trivial, fun _ absent => nomatch absent⟩
  | @raised e s' c' stands' sound' leads noted =>
    have bounded := stands'.bounded
    have anchored := sound'.pending e rfl
    -- the declaration began before the end, so there is a token behind a fault at the end
    obtain ⟨n, walk, stands'', resumes, further⟩ := stands'.synchronize (by omega)
    have onward : c.position < c'.position + n := by
      have := leads.position
      omega
    have finishes : (do synchronize; finish c (some e); return none : Walk (Option α)) c' =
        .ok none ((c'.moved n).logged
          ⟨c.position, c'.position + n, c'.errors.length - c.errors.length, some e⟩) :=
      bind_ok walk
    simp only [finishes]
    refine .ok { stands'' with } (sound'.recovered stands''.bounded further rfl ?_)
      ⟨onward.le, leads.errors⟩ fun _ => onward
    refine ⟨stands''.bounded, onward, fun e' same => ?_⟩
    cases same
    exact ⟨Nat.sub_pos_of_lt noted, c'.position, leads.position, Nat.le_add_right _ n, anchored,
      resumes⟩
  | tooDeep => exact .tooDeep

end Rules

end Lox.Cursor
