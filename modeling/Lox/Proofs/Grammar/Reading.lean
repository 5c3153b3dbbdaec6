import Lox.Grammar.Parser
import Lox.Proofs.Scope.Subjects

/-!
# What a parser reads

A parser reads tokens from left to right, so what it yields was read between the position at which it
starts and the one at which it stops. `Reads` says so of the subjects of what a parser yields, whatever
the rule is that the tokens follow; it is passed on by sequencing, repetition and recovery.
-/

namespace Lox

/-! ## Subjects that were read -/

/-- The tokens of the subject follow the rule, and have the kinds that its form demands. -/
def Subject.Follows (rule : Token → Prop) : Subject → Prop
  | .declaration name => name.kind = .identifier ∧ rule name
  | .mention .variable m | .mention .assignment m | .superclass _ m =>
    m.token.kind = .identifier ∧ rule m.token
  | .mention .this m => m.token.kind = .kwThis ∧ rule m.token
  | .mention .super m => m.token.kind = .kwSuper ∧ rule m.token
  | .result keyword _ => keyword.kind = .kwReturn ∧ rule keyword

/--
Subjects that were read from the tokens with numbers from `first` to before `last`, which follow the rule.
-/
structure TakenBetween (rule : Token → Prop) (first last : Nat) (subjects : List Subject) : Prop where
  lawful : ∀ x ∈ subjects, x.Follows rule
  bounds : ∀ n ∈ Subject.ids subjects, first ≤ n ∧ n < last
  distinct : (Subject.ids subjects).Nodup

namespace TakenBetween

variable {rule : Token → Prop} {first middle last : Nat} {subjects others : List Subject}

theorem nil : TakenBetween rule first last [] :=
  ⟨by simp, by simp [Subject.ids], by simp [Subject.ids]⟩

theorem append (left : TakenBetween rule first middle subjects)
    (right : TakenBetween rule middle last others) (ordered : first ≤ middle)
    (bounded : middle ≤ last) : TakenBetween rule first last (subjects ++ others) := by
  refine ⟨List.forall_mem_append.2 ⟨left.lawful, right.lawful⟩, fun n found => ?_, ?_⟩
  · rw [Subject.ids, List.filterMap_append] at found
    rcases List.mem_append.1 found with found | found
    · obtain ⟨low, high⟩ := left.bounds n found
      omega
    · obtain ⟨low, high⟩ := right.bounds n found
      omega
  · rw [Subject.ids, List.filterMap_append]
    refine List.nodup_append.2 ⟨left.distinct, right.distinct, fun n inLeft k inRight equal => ?_⟩
    obtain ⟨_, high⟩ := left.bounds n inLeft
    obtain ⟨low, _⟩ := right.bounds k inRight
    omega

theorem sublist (taken : TakenBetween rule first last subjects) (part : others.Sublist subjects) :
    TakenBetween rule first last others := by
  have ids : (Subject.ids others).Sublist (Subject.ids subjects) := part.filterMap _
  exact ⟨fun x found => taken.lawful x (part.subset found),
    fun n found => taken.bounds n (ids.subset found), taken.distinct.sublist ids⟩

/-- A statement that returns mentions nothing by itself. -/
theorem result (taken : TakenBetween rule first last subjects) {keyword : Token}
    (returns : keyword.kind = .kwReturn ∧ rule keyword) (hasValue : Bool) :
    TakenBetween rule first last (.result keyword hasValue :: subjects) :=
  ⟨List.forall_mem_cons.2 ⟨returns, taken.lawful⟩, taken.bounds, taken.distinct⟩

theorem perm (taken : TakenBetween rule first last subjects) (reordered : others.Perm subjects) :
    TakenBetween rule first last others := by
  have ids : (Subject.ids others).Perm (Subject.ids subjects) := reordered.filterMap _
  exact ⟨fun x found => taken.lawful x (reordered.mem_iff.1 found),
    fun n found => taken.bounds n (ids.mem_iff.1 found), ids.nodup_iff.2 taken.distinct⟩

/-- A name that was read as a variable may be the target of an assignment instead. -/
theorem assign {m : Occurrence} {value : List Subject}
    (taken : TakenBetween rule first last (.mention .variable m :: value)) :
    TakenBetween rule first last (value ++ [.mention .assignment m]) := by
  obtain ⟨target, rest⟩ := List.forall_mem_cons.1 taken.lawful
  have assigned : TakenBetween rule first last (.mention .assignment m :: value) :=
    ⟨List.forall_mem_cons.2 ⟨target, rest⟩, taken.bounds, taken.distinct⟩
  exact assigned.perm List.perm_append_comm

/-- What is read from tokens that are spelled right is spelled right. -/
theorem readBetween (taken : TakenBetween Token.Spelled first last subjects) :
    ReadBetween first last subjects := by
  refine ⟨fun x member => ?_, taken.bounds, taken.distinct⟩
  have follows := taken.lawful x member
  cases x with
  | declaration name | superclass name m => exact follows.2.identifier follows.1
  | result => trivial
  | mention form m =>
    cases form with
    | «variable» | assignment => exact follows.2.identifier follows.1
    | this => exact follows.2.this follows.1
    | super => exact follows.2.super follows.1

end TakenBetween

namespace Grammar

/-! ## Positions -/

section Positions

variable (rule : Token → Prop)

/-- The tokens ahead follow the rule, and the position tells how many there are. -/
structure State.Sound (s : State) : Prop where
  lawful : ∀ t ∈ s.ahead, rule t
  counted : s.position + s.ahead.length = s.last.id

/-- State `s'` is sound and not before `s`. -/
structure State.Leads (s s' : State) : Prop where
  sound : s'.Sound rule
  forward : s.position ≤ s'.position
  last : s'.last = s.last

end Positions

variable {α β : Type} {rule : Token → Prop}

theorem State.Leads.refl {s : State} (sound : s.Sound rule) : s.Leads rule s :=
  ⟨sound, Nat.le_refl _, rfl⟩

theorem State.Leads.trans {s s' s'' : State} (first : s.Leads rule s') (second : s'.Leads rule s'') :
    s.Leads rule s'' :=
  ⟨second.sound, Nat.le_trans first.forward second.forward, second.last.trans first.last⟩

/-! ## Outcomes -/

/-- The parser, run from `s`, leads forward, and a result that it yields has the property. -/
def Yields (rule : Token → Prop) (p : Parser α) (s : State) (Q : α → State → Prop) : Prop :=
  match p s with
  | .ok a s' => s.Leads rule s' ∧ Q a s'
  | .error _ s' => s.Leads rule s'

namespace Yields

variable {p : Parser α} {s : State} {Q : α → State → Prop}

theorem pure {a : α} (sound : s.Sound rule) (holds : Q a s) : Yields rule (pure a) s Q :=
  ⟨.refl sound, holds⟩

theorem bind {f : α → Parser β} {R : β → State → Prop} (first : Yields rule p s Q)
    (second : ∀ a s', s.Leads rule s' → Q a s' → Yields rule (f a) s' R) :
    Yields rule (p >>= f) s R := by
  unfold Yields at first ⊢
  rw [show (p >>= f) s = EStateM.bind p f s from rfl, EStateM.bind]
  cases result : p s with
  | error halt s' =>
    rw [result] at first
    exact first
  | ok a s' =>
    rw [result] at first
    obtain ⟨leads, holds⟩ := first
    have rest := second a s' leads holds
    unfold Yields at rest
    cases next : f a s' with
    | error halt s'' =>
      rw [next] at rest
      simpa only [next] using leads.trans rest
    | ok b s'' =>
      rw [next] at rest
      simpa only [next] using And.intro (leads.trans rest.1) rest.2

theorem mono {R : α → State → Prop} (yields : Yields rule p s Q)
    (weaken : ∀ a s', s.Leads rule s' → Q a s' → R a s') : Yields rule p s R := by
  unfold Yields at *
  cases result : p s with
  | error halt s' =>
    rw [result] at yields
    exact yields
  | ok a s' =>
    rw [result] at yields
    exact ⟨yields.1, weaken a s' yields.1 yields.2⟩

theorem map {f : α → β} {R : β → State → Prop} (yields : Yields rule p s Q)
    (mapped : ∀ a s', s.Leads rule s' → Q a s' → R (f a) s') : Yields rule (f <$> p) s R :=
  yields.bind fun a s' leads holds => pure leads.sound (mapped a s' leads holds)

end Yields

/-! ## Single tokens -/

/-- Occurrence `o` of a token of one of the kinds is what lies between states `s` and `s'`. -/
structure ReadToken (rule : Token → Prop) (kinds : List TokenKind) (s : State) (o : Occurrence)
    (s' : State) : Prop where
  id : o.id = s.position
  next : s'.position = s.position + 1
  kind : o.token.kind ∈ kinds
  lawful : rule o.token

variable {s : State}

theorem tooDeep_yields (sound : s.Sound rule) {Q : α → State → Prop} : Yields rule tooDeep s Q :=
  .refl sound

theorem note_yields (sound : s.Sound rule) (fault : ParseFault) (place : Occurrence) :
    Yields rule (note fault place) s fun _ s' => s'.position = s.position :=
  ⟨⟨⟨sound.lawful, sound.counted⟩, Nat.le_refl _, rfl⟩, rfl⟩

theorem noteHere_yields (sound : s.Sound rule) (fault : ParseFault) :
    Yields rule (noteHere fault) s fun _ s' => s'.position = s.position :=
  note_yields sound fault s.current

theorem fail_yields (sound : s.Sound rule) {fault : ParseFault} {Q : α → State → Prop} :
    Yields rule (fail fault) s Q :=
  (noteHere_yields sound fault).bind fun _ _ leads _ => State.Leads.refl leads.sound

theorem atEnd_yields (sound : s.Sound rule) : Yields rule atEnd s fun _ s' => s' = s :=
  ⟨.refl sound, rfl⟩

theorem next_yields (sound : s.Sound rule) (kind : TokenKind) :
    Yields rule (next kind) s fun _ s' => s' = s := by
  obtain ⟨ahead, position, last, errors⟩ := s
  cases ahead <;> exact ⟨.refl sound, rfl⟩

theorem accept?_yields (sound : s.Sound rule) (kinds : List TokenKind) :
    Yields rule (accept? kinds) s fun found s' => match found with
      | none => s' = s
      | some o => ReadToken rule kinds s o s' := by
  obtain ⟨ahead, position, last, errors⟩ := s
  cases ahead with
  | nil => exact ⟨.refl sound, rfl⟩
  | cons t rest =>
    obtain ⟨here, lawful⟩ := List.forall_mem_cons.1 sound.lawful
    have counted := sound.counted
    simp only [List.length_cons] at counted
    unfold Yields accept?
    by_cases accepted : kinds.contains t.kind = true
    · simp only [accepted, if_true]
      exact ⟨⟨⟨lawful, by simp only; omega⟩, Nat.le_succ _, rfl⟩,
        rfl, rfl, List.contains_iff_mem.1 accepted, here⟩
    · simp only [accepted]
      exact ⟨.refl sound, rfl⟩

theorem accept_yields (sound : s.Sound rule) (kind : TokenKind) :
    Yields rule (accept kind) s fun _ _ => True :=
  (accept?_yields sound [kind]).bind fun _ _ leads _ => .pure leads.sound trivial

theorem expect_yields (sound : s.Sound rule) (kind : TokenKind) (fault : ParseFault) :
    Yields rule (expect kind fault) s fun o s' => ReadToken rule [kind] s o s' := by
  refine (accept?_yields sound [kind]).bind fun found s' leads read => ?_
  cases found with
  | none => exact fail_yields leads.sound
  | some o => exact .pure leads.sound read

theorem skip_yields (sound : s.Sound rule) (kind : TokenKind) (fault : ParseFault) :
    Yields rule (skip kind fault) s fun _ _ => True :=
  (expect_yields sound kind fault).bind fun _ _ leads _ => .pure leads.sound trivial

theorem ReadToken.identifier {o : Occurrence} {s' : State}
    (read : ReadToken rule [.identifier] s o s') : o.token.kind = .identifier ∧ rule o.token :=
  ⟨List.mem_singleton.1 read.kind, read.lawful⟩

theorem ReadToken.taken {kinds : List TokenKind} {o : Occurrence} {s' : State}
    (read : ReadToken rule kinds s o s') {x : Subject} (follows : x.Follows rule)
    (mentions : ∀ m, x.mention? = some m → m.2 = o) :
    TakenBetween rule s.position s'.position [x] := by
  refine ⟨List.forall_mem_singleton.2 follows, fun n found => ?_, ?_⟩
  · obtain ⟨y, here, numbered⟩ := List.mem_filterMap.1 found
    obtain ⟨m, mentioned, rfl⟩ := Option.map_eq_some_iff.1 numbered
    rw [List.mem_singleton.1 here] at mentioned
    rw [mentions m mentioned, read.id, read.next]
    omega
  · rw [Subject.ids, List.filterMap_cons]
    split <;> simp

/-! ## Subjects of results -/

/-- The subjects of what the parser yields were read where the parser went. -/
def Reads (rule : Token → Prop) (p : Parser α) (subjects : α → List Subject) : Prop :=
  ∀ s, s.Sound rule → Yields rule p s fun a s' => TakenBetween rule s.position s'.position (subjects a)

/-- State `s` was reached from position `start`, and the subjects were read on the way. -/
structure Progress (rule : Token → Prop) (start : Nat) (s : State) (done : List Subject) : Prop where
  sound : s.Sound rule
  begun : start ≤ s.position
  taken : TakenBetween rule start s.position done

namespace Progress

variable {subjects : α → List Subject} {start : Nat} {done : List Subject}

theorem initial (sound : s.Sound rule) : Progress rule s.position s [] :=
  ⟨sound, Nat.le_refl _, .nil⟩

theorem advance (progress : Progress rule start s done) {s' : State} (leads : s.Leads rule s')
    {read : List Subject} (takenThere : TakenBetween rule s.position s'.position read) :
    Progress rule start s' (done ++ read) :=
  ⟨leads.sound, Nat.le_trans progress.begun leads.forward,
    progress.taken.append takenThere progress.begun leads.forward⟩

theorem bind {p : Parser α} {f : α → Parser β} {R : β → State → Prop}
    (progress : Progress rule start s done) (reads : Reads rule p subjects)
    (rest : ∀ a s', Progress rule start s' (done ++ subjects a) → Yields rule (f a) s' R) :
    Yields rule (p >>= f) s R :=
  (reads s progress.sound).bind fun a s' leads taken => rest a s' (progress.advance leads taken)

/-- Ends with a result that has just the subjects that were read, in any order. -/
theorem yield (progress : Progress rule start s done) {a : α} (reordered : (subjects a).Perm done) :
    Yields rule (pure a) s fun a s' => TakenBetween rule start s'.position (subjects a) :=
  .pure progress.sound (progress.taken.perm reordered)

/-- Goes on with a parser whose results have the subjects read so far before their own. -/
theorem finish {p : Parser β} {own others : β → List Subject}
    (progress : Progress rule start s done) (reads : Reads rule p own)
    (joined : ∀ b, (others b).Perm (done ++ own b)) :
    Yields rule p s fun b s' => TakenBetween rule start s'.position (others b) :=
  (reads s progress.sound).mono fun b _ leads taken =>
    (progress.advance leads taken).taken.perm (joined b)

end Progress

theorem Reads.some {subjects : α → List Subject} {p : Parser α} (reads : Reads rule p subjects) :
    Reads rule (some <$> p) (fun found => found.toList.flatMap subjects) :=
  fun s sound => (reads s sound).map fun a _ _ taken => by simpa using taken

theorem Reads.sublist {subjects others : α → List Subject} {p : Parser α}
    (reads : Reads rule p subjects) (part : ∀ a, (others a).Sublist (subjects a)) :
    Reads rule p others :=
  fun s sound => (reads s sound).mono fun a _ _ taken => taken.sublist (part a)

theorem skip_reads (kind : TokenKind) (fault : ParseFault) :
    Reads rule (skip kind fault) (fun _ => []) :=
  fun _ sound => (skip_yields sound kind fault).mono fun _ _ _ _ => .nil

theorem note_reads (fault : ParseFault) (place : Occurrence) :
    Reads rule (note fault place) (fun _ => []) :=
  fun _ sound => (note_yields sound fault place).mono fun _ _ _ _ => .nil

theorem noteHere_reads (fault : ParseFault) : Reads rule (noteHere fault) (fun _ => []) :=
  fun _ sound => (noteHere_yields sound fault).mono fun _ _ _ _ => .nil

theorem accept?_reads (kinds : List TokenKind) : Reads rule (accept? kinds) (fun _ => []) :=
  fun _ sound => (accept?_yields sound kinds).mono fun _ _ _ _ => .nil

theorem accept_reads (kind : TokenKind) : Reads rule (accept kind) (fun _ => []) :=
  fun _ sound => (accept_yields sound kind).mono fun _ _ _ _ => .nil

theorem next_reads (kind : TokenKind) : Reads rule (next kind) (fun _ => []) :=
  fun _ sound => (next_yields sound kind).mono fun _ _ _ _ => .nil

theorem atEnd_reads : Reads rule atEnd (fun _ => []) :=
  fun _ sound => (atEnd_yields sound).mono fun _ _ _ _ => .nil

/-- An identifier is read as whatever an identifier can be. -/
theorem expect_reads (fault : ParseFault) {subject : Occurrence → Subject}
    (follows : ∀ o, o.token.kind = .identifier ∧ rule o.token → (subject o).Follows rule)
    (mentions : ∀ o m, (subject o).mention? = Option.some m → m.2 = o) :
    Reads rule (expect .identifier fault) (fun o => [subject o]) :=
  fun _ sound => (expect_yields sound .identifier fault).mono fun o _ _ read =>
    read.taken (follows o read.identifier) (mentions o)

theorem expectName_reads (fault : ParseFault) :
    Reads rule (expect .identifier fault) (fun o => [.declaration o.token]) :=
  expect_reads fault (fun _ follows => follows) (by rintro _ _ ⟨⟩)

theorem expectSilent_reads (kind : TokenKind) (fault : ParseFault) :
    Reads rule (expect kind fault) (fun _ => []) :=
  fun _ sound => (expect_yields sound kind fault).mono fun _ _ _ _ => .nil

section Optional

variable {subjects : α → List Subject} {start : Nat} {done : List Subject}
variable {p : Parser α} {f : α → Parser β} {R : β → State → Prop}

/-- A part that is left out if a token of the given kind is next. -/
theorem Progress.unless (progress : Progress rule start s done) (kind : TokenKind) {absent : α}
    (nothing : subjects absent = []) (reads : Reads rule p subjects)
    (rest : ∀ a s', Progress rule start s' (done ++ subjects a) → Yields rule (f a) s' R) :
    Yields rule
      (next kind >>= fun found => if found = true then pure absent >>= f else p >>= f) s R := by
  refine progress.bind (next_reads kind) fun found s' progress => ?_
  rw [List.append_nil] at progress
  cases found with
  | true => exact rest absent s' (by rwa [nothing, List.append_nil])
  | false => exact progress.bind reads rest

/-- A part that is there if a token of the given kind comes first. -/
theorem Progress.optional {f : Option α → Parser β} (progress : Progress rule start s done)
    (kind : TokenKind) (reads : Reads rule p subjects)
    (rest : ∀ a s', Progress rule start s' (done ++ a.toList.flatMap subjects) →
      Yields rule (f a) s' R) :
    Yields rule (accept kind >>= fun found =>
      if found = true then some <$> p >>= f else pure none >>= f) s R := by
  refine progress.bind (accept_reads kind) fun found s' progress => ?_
  rw [List.append_nil] at progress
  cases found with
  | true => exact progress.bind reads.some rest
  | false => exact rest none s' (by simpa using progress)

end Optional

section Repetition

variable {subjects : α → List Subject}

theorem manyFrom_yields {step : Nat → Parser (Option α)}
    (each : ∀ count, Reads rule (step count) (fun found => found.toList.flatMap subjects))
    (fuel count : Nat) (found : List α) (start : Nat) (s : State)
    (progress : Progress rule start s (found.reverse.flatMap subjects)) :
    Yields rule (manyFrom step fuel count found) s fun all s' =>
      TakenBetween rule start s'.position (all.flatMap subjects) := by
  induction fuel generalizing count found s with
  | zero => exact progress.yield (.refl _)
  | succ fuel inductionHypothesis =>
    refine progress.bind (each count) fun result s' progress => ?_
    cases result with
    | none => exact progress.yield (by simp)
    | some a => exact inductionHypothesis (count + 1) (a :: found) s' (by simpa using progress)

theorem many_reads {step : Nat → Parser (Option α)}
    (each : ∀ count, Reads rule (step count) (fun found => found.toList.flatMap subjects)) :
    Reads rule (many step) (fun all => all.flatMap subjects) :=
  fun s sound => manyFrom_yields each _ 0 [] s.position s (.initial sound)

theorem separated_reads {item : Parser α} (each : Reads rule item subjects) (tooMany : ParseFault) :
    Reads rule (separated tooMany item) (fun all => all.flatMap subjects) := by
  intro s sound
  refine (Progress.initial sound).bind each fun first s' progress => ?_
  refine progress.bind (many_reads fun count => ?_ : Reads rule _ (fun all => all.flatMap subjects))
    fun others s'' progress => progress.yield (by simp)
  intro t sound
  refine (Progress.initial sound).bind (accept_reads .comma) fun comma t' progress => ?_
  -- Noting that there are too many reads nothing, so both cases go on alike.
  have another : ∀ u, Progress rule t.position u [] →
      Yields rule (do return some (← item)) u fun found u' =>
        TakenBetween rule t.position u'.position (found.toList.flatMap subjects) :=
    fun u progress => progress.bind each fun a u' progress => progress.yield (by simp)
  cases comma with
  | false => exact progress.yield (by simp)
  | true =>
    by_cases full : maxArguments ≤ count + 1
    · simp only [if_true, full]
      exact progress.bind (noteHere_reads tooMany) fun _ u progress => another u progress
    · simp only [if_true, full, if_false]
      exact another t' progress

end Repetition

/-! ## Recovery -/

theorem boundary_counted (previous : TokenKind) (ahead : List Token) (position : Nat) :
    position ≤ (boundary previous ahead position).2 ∧
      (boundary previous ahead position).2 + (boundary previous ahead position).1.length =
        position + ahead.length ∧
      ∀ t ∈ (boundary previous ahead position).1, t ∈ ahead := by
  induction ahead generalizing previous position with
  | nil => simp [boundary]
  | cons t rest inductionHypothesis =>
    rw [boundary]
    split
    · simp
    · obtain ⟨forward, counted, member⟩ := inductionHypothesis t.kind (position + 1)
      refine ⟨by omega, by rw [List.length_cons]; omega, fun u found => ?_⟩
      exact List.mem_cons_of_mem t (member u found)

theorem State.synchronize_leads (sound : s.Sound rule) : s.Leads rule s.synchronize := by
  obtain ⟨ahead, position, last, errors⟩ := s
  cases ahead with
  | nil => exact .refl sound
  | cons t rest =>
    obtain ⟨forward, counted, member⟩ := boundary_counted t.kind rest (position + 1)
    have total := sound.counted
    simp only [List.length_cons] at total
    refine ⟨⟨fun u found => sound.lawful u (List.mem_cons_of_mem t (member u found)), ?_⟩, ?_, rfl⟩
    · simp only [State.synchronize]
      omega
    · simp only [State.synchronize]
      omega

theorem recovering_reads {p : Parser α} {subjects : α → List Subject}
    (reads : Reads rule p subjects) :
    Reads rule (recovering p) (fun found => found.toList.flatMap subjects) := by
  intro s sound
  have outcome := reads s sound
  unfold Yields at outcome ⊢
  unfold recovering
  cases result : p s with
  | ok a s' =>
    rw [result] at outcome
    exact ⟨outcome.1, by simpa using outcome.2⟩
  | error halt s' =>
    rw [result] at outcome
    cases halt with
    | fault => exact ⟨outcome.trans (State.synchronize_leads outcome.sound), .nil⟩
    | tooDeep => exact outcome

end Grammar

end Lox
