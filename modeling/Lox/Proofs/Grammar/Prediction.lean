import Lox.Proofs.Grammar.Findings
import Lox.Proofs.Grammar.Relaxed

/-!
# Prediction

`Predicts` says that a parser follows a rule, whatever words may come after it. If no fault is raised,
then the tokens read are a word of the rule, and there is no other way to go on with them and the next
token. Otherwise the first fault raised is blamed on the first token that no word goes on with. The two
parts pass through sequencing, choice by the next token, repetition and recovery.
-/

namespace Lox.Grammar

/-! ## What lies ahead -/

/-- The kind of the token at which the parser stands. -/
def State.nextKind (s : State) : TokenKind := (s.ahead.head?.map Token.kind).getD .endOfInput

/-- The position tells how many tokens lie ahead, and none of them closes the input. -/
structure State.Proper (s : State) : Prop where
  counted : s.Counted
  ordinary : ∀ t ∈ s.ahead, t.kind ≠ .endOfInput

/-- The tokens are what lies between the two states. -/
structure State.Spans (s : State) (ts : List Token) (s' : State) : Prop where
  ahead : s.ahead = ts ++ s'.ahead
  position : s'.position = s.position + ts.length
  last : s'.last = s.last

/-- The second state comes after the first, with new errors. -/
structure State.Onto (s s' : State) (new : List ParseError) : Prop where
  proper : s'.Proper
  last : s'.last = s.last
  errors : s'.errors.toList = s.errors.toList ++ new

/-- The kinds of tokens. -/
def kinds (ts : List Token) : List TokenKind := ts.map Token.kind

namespace State

variable {s s' s'' : State} {ts ts' : List Token} {new new' : List ParseError}

theorem Spans.nil (s : State) : s.Spans [] s := ⟨rfl, rfl, rfl⟩

theorem Spans.append (first : s.Spans ts s') (second : s'.Spans ts' s'') :
    s.Spans (ts ++ ts') s'' := by
  refine ⟨by rw [first.ahead, second.ahead, List.append_assoc], ?_, second.last.trans first.last⟩
  rw [second.position, first.position, List.length_append, Nat.add_assoc]

/-- The token at which the parser stands comes next. -/
theorem Spans.starts (spans : s.Spans ts s') :
    ∃ rest, kinds ts ++ [s'.nextKind] = s.nextKind :: rest := by
  unfold State.nextKind
  rw [spans.ahead]
  cases ts with
  | nil => exact ⟨[], rfl⟩
  | cons t ts => exact ⟨kinds ts ++ _, rfl⟩

theorem Onto.nil (proper : s.Proper) : s.Onto s [] := ⟨proper, rfl, by simp⟩

theorem Onto.trans (first : s.Onto s' new) (second : s'.Onto s'' new') :
    s.Onto s'' (new ++ new') :=
  ⟨second.proper, second.last.trans first.last,
    by rw [second.errors, first.errors, List.append_assoc]⟩

end State

/-! ## Outcomes -/

/-- No error of the list is raised. -/
def Silent (errors : List ParseError) : Prop := ∀ e ∈ errors, e.fault.raised = false

/-- The first error of a list that is raised. -/
def firstRaised? (errors : List ParseError) : Option ParseError := errors.find? (·.fault.raised)

theorem firstRaised?_append_silent {new new' : List ParseError} (silent : Silent new) :
    firstRaised? (new ++ new') = firstRaised? new' := by
  have none : new.find? (·.fault.raised) = none := by
    rw [List.find?_eq_none]
    intro e here
    simp [silent e here]
  rw [firstRaised?, List.find?_append, none, Option.none_or]
  rfl

theorem firstRaised?_append_some {new new' : List ParseError} {e : ParseError}
    (first : firstRaised? new = some e) : firstRaised? (new ++ new') = some e := by
  rw [firstRaised?] at first
  rw [firstRaised?, List.find?_append, first, Option.some_or]

variable {α β : Type} {s s' : State} {L M K : Language TokenKind}

/-- Words of `L` with a word of `K` behind them go on after the tokens and the next one with a word of
`K`. -/
def Forced (L K : Language TokenKind) (ts : List Token) (next : TokenKind) : Prop :=
  ∀ z ∈ L * K, kinds ts ++ [next] <+: z → ∃ k ∈ K, z = kinds ts ++ k

/-- The error is found at the first token with which no word goes on. -/
def Blamed (L K : Language TokenKind) (s : State) (e : ParseError) : Prop :=
  ∃ ts stop, s.Spans ts stop ∧ e.place = stop.current ∧
    (ts = [] ∨ ∃ w ∈ L, kinds ts <+: w) ∧
    ∀ z ∈ L * K, ¬kinds ts ++ [stop.nextKind] <+: z

/-- What is told by an outcome. -/
inductive Told (L K : Language TokenKind) (s : State) : EStateM.Result Halt State α → Prop where
  | passed {a : α} {s' : State} {new : List ParseError} {ts : List Token} (onto : s.Onto s' new)
      (silent : Silent new) (spans : s.Spans ts s') (word : kinds ts ∈ L)
      (forced : Forced L K ts s'.nextKind) : Told L K s (.ok a s')
  | recovered {a : α} {s' : State} {new : List ParseError} {e : ParseError} (onto : s.Onto s' new)
      (first : firstRaised? new = some e) (blamed : Blamed L K s e) : Told L K s (.ok a s')
  | halted {s' : State} {new : List ParseError} {e : ParseError} (onto : s.Onto s' new)
      (first : firstRaised? new = some e) (blamed : Blamed L K s e) : Told L K s (.error .fault s')
  | tooDeep {s' : State} : Told L K s (.error .tooDeep s')

/-- No error is forgotten, however the parser ends. -/
inductive Kept (s : State) : EStateM.Result Halt State α → Prop where
  | ok {a : α} {s' : State} {new : List ParseError} (onto : s.Onto s' new) : Kept s (.ok a s')
  | fault {s' : State} {new : List ParseError} (onto : s.Onto s' new) : Kept s (.error .fault s')
  | tooDeep {s' : State} : Kept s (.error .tooDeep s')

theorem Told.kept {result : EStateM.Result Halt State α} (told : Told L K s result) :
    Kept s result := by
  cases told with
  | passed onto => exact .ok onto
  | recovered onto => exact .ok onto
  | halted onto => exact .fault onto
  | tooDeep => exact .tooDeep

/-- After tokens that are forced, a word goes on with the rest of what was read. -/
theorem Forced.split {s'' : State} {ts ts' : List Token} {z : List TokenKind}
    (forced : Forced L (M * K) ts s'.nextKind) (spans : s'.Spans ts' s'')
    (member : z ∈ L * M * K) (front : kinds (ts ++ ts') ++ [s''.nextKind] <+: z) :
    ∃ k ∈ M * K, z = kinds ts ++ k ∧ kinds ts' ++ [s''.nextKind] <+: k := by
  obtain ⟨rest, rfl⟩ := front
  obtain ⟨others, starts⟩ := spans.starts
  have whole : kinds (ts ++ ts') ++ [s''.nextKind] ++ rest =
      kinds ts ++ (kinds ts' ++ [s''.nextKind] ++ rest) := by simp [kinds]
  rw [mul_assoc] at member
  obtain ⟨k, here, same⟩ := forced _ member ⟨others ++ rest, by rw [whole, starts]; simp⟩
  rw [whole, List.append_cancel_left_eq] at same
  exact ⟨k, here, by rw [whole, same], rest, same⟩

namespace Blamed

variable {e : ParseError} {ts : List Token}

theorem left (blamed : Blamed L (M * K) s e) (inhabited : ∃ w, w ∈ M) : Blamed (L * M) K s e := by
  obtain ⟨ts, stop, spans, place, viable, stuck⟩ := blamed
  refine ⟨ts, stop, spans, place, viable.imp_right ?_, by rwa [mul_assoc]⟩
  rintro ⟨v, word, front⟩
  obtain ⟨w, word'⟩ := inhabited
  exact ⟨v ++ w, Language.append_mem_mul word word', front.trans (List.prefix_append v w)⟩

/-- After tokens that are forced, the blame is the same. -/
theorem after (spans : s.Spans ts s') (word : kinds ts ∈ L) (forced : Forced L (M * K) ts s'.nextKind)
    (inhabited : ∃ w, w ∈ M) (blamed : Blamed M K s' e) : Blamed (L * M) K s e := by
  obtain ⟨ts', stop, spans', place, viable, stuck⟩ := blamed
  refine ⟨ts ++ ts', stop, spans.append spans', place, .inr ?_, ?_⟩
  · have split : kinds (ts ++ ts') = kinds ts ++ kinds ts' := List.map_append
    obtain rfl | ⟨v, here, rest, rfl⟩ := viable
    · obtain ⟨w, word'⟩ := inhabited
      exact ⟨kinds ts ++ w, Language.append_mem_mul word word', w, by simp⟩
    · exact ⟨_, Language.append_mem_mul word here, rest, by rw [split, List.append_assoc]⟩
  -- A word with this front goes as the tokens force it: through `L` first, then through `M`.
  · intro z member front
    obtain ⟨k, here, -, rest⟩ := forced.split spans' member front
    exact stuck k here rest

end Blamed

/-! ## Composition -/

namespace Told

variable {result : EStateM.Result Halt State α} {new : List ParseError} {ts : List Token}

/-- After tokens that are forced, what is told of the rest is told of the whole. -/
theorem after (onto : s.Onto s' new) (silent : Silent new) (spans : s.Spans ts s')
    (word : kinds ts ∈ L) (forced : Forced L (M * K) ts s'.nextKind) (inhabited : ∃ w, w ∈ M)
    (told : Told M K s' result) : Told (L * M) K s result := by
  cases told with
  | @passed a s'' new' ts' onto' silent' spans' word' forced' =>
    refine .passed (onto.trans onto') ?_ (spans.append spans') ?_ ?_
    · intro e here
      obtain here | here := List.mem_append.1 here
      · exact silent e here
      · exact silent' e here
    · rw [kinds, List.map_append]
      exact Language.append_mem_mul word word'
    · intro z member front
      obtain ⟨k, here, same, rest⟩ := forced.split spans' member front
      obtain ⟨k', here', same'⟩ := forced' k here rest
      exact ⟨k', here', by simp [same, same', kinds]⟩
  | recovered onto' first blamed =>
    exact .recovered (onto.trans onto') ((firstRaised?_append_silent silent).trans first)
      (blamed.after spans word forced inhabited)
  | halted onto' first blamed =>
    exact .halted (onto.trans onto') ((firstRaised?_append_silent silent).trans first)
      (blamed.after spans word forced inhabited)
  | tooDeep => exact .tooDeep

/-- Once a fault is raised, it stays the first. -/
theorem of_blamed {e : ParseError} (onto : s.Onto s' new) (first : firstRaised? new = some e)
    (blamed : Blamed L K s e) (kept : Kept s' result) : Told L K s result := by
  cases kept with
  | ok onto' => exact .recovered (onto.trans onto') (firstRaised?_append_some first) blamed
  | fault onto' => exact .halted (onto.trans onto') (firstRaised?_append_some first) blamed
  | tooDeep => exact .tooDeep

theorem bind {p : Parser α} {f : α → Parser β} (told : Told L (M * K) s (p s))
    (rest : ∀ a s', s'.Proper → Told M K s' (f a s')) (inhabited : ∃ w, w ∈ M) :
    Told (L * M) K s ((p >>= f) s) := by
  cases outcome : p s with
  | ok a s' =>
    rw [bind_ok outcome]
    rw [outcome] at told
    cases told with
    | passed onto silent spans word forced =>
      exact after onto silent spans word forced inhabited (rest a s' onto.proper)
    -- The fault that was recovered from stays the first one, whatever the rest reads.
    | recovered onto first blamed =>
      exact of_blamed onto first (blamed.left inhabited) (rest a s' onto.proper).kept
  | error halt s' =>
    rw [bind_error outcome]
    rw [outcome] at told
    cases told with
    | halted onto first blamed => exact .halted onto first (blamed.left inhabited)
    | tooDeep => exact .tooDeep

/-- What is told of some of the words is told of all, if the others do not begin with the next token. -/
theorem focus {L' : Language TokenKind} (told : Told L' K s result) (fewer : ∀ w ∈ L', w ∈ L)
    (only : ∀ v, s.nextKind :: v ∈ L * K → s.nextKind :: v ∈ L' * K) : Told L K s result := by
  -- A word with such a front begins with the next token, so it is one of the fewer words.
  have narrow : ∀ {ts : List Token} {stop : State} {z : List TokenKind}, s.Spans ts stop →
      z ∈ L * K → kinds ts ++ [stop.nextKind] <+: z → z ∈ L' * K := by
    rintro ts stop z spans member ⟨rest, rfl⟩
    obtain ⟨others, starts⟩ := spans.starts
    rw [starts] at member ⊢
    exact only _ member
  have blame : ∀ {e : ParseError}, Blamed L' K s e → Blamed L K s e := by
    rintro e ⟨ts, stop, spans, place, viable, stuck⟩
    refine ⟨ts, stop, spans, place, viable.imp_right ?_, fun z member front => ?_⟩
    · rintro ⟨w, word, front⟩
      exact ⟨w, fewer w word, front⟩
    · exact stuck z (narrow spans member front) front
  cases told with
  | passed onto silent spans word forced =>
    exact .passed onto silent spans (fewer _ word) fun z member front =>
      forced z (narrow spans member front) front
  | recovered onto first blamed => exact .recovered onto first (blame blamed)
  | halted onto first blamed => exact .halted onto first (blame blamed)
  | tooDeep => exact .tooDeep

end Told

/-! ## Tokens -/

theorem State.avoids_of_nextKind {kinds : List TokenKind} (other : s.nextKind ∉ kinds) :
    s.Avoids kinds := by
  intro t here
  rwa [nextKind, Option.mem_def.1 here] at other

theorem State.exists_of_nextKind {kinds : List TokenKind} (ordinary : .endOfInput ∉ kinds)
    (listed : s.nextKind ∈ kinds) :
    ∃ t, s.ahead.head? = some t ∧ t.kind ∈ kinds ∧ s.nextKind = t.kind := by
  unfold nextKind at listed ⊢
  cases here : s.ahead.head? with
  | none =>
    rw [here] at listed
    exact absurd listed ordinary
  | some t =>
    rw [here] at listed
    exact ⟨t, rfl, listed, rfl⟩

theorem State.Proper.ended (proper : s.Proper) (next : s.nextKind = .endOfInput) : s.Ended := by
  unfold nextKind at next
  cases ahead : s.ahead with
  | nil => exact ahead
  | cons t rest =>
    rw [ahead] at next
    exact absurd next (proper.ordinary t (by simp [ahead]))

theorem State.Proper.spans_advance {t : Token} (ahead : s.ahead.head? = some t) :
    s.Spans [t] s.advance := by
  obtain ⟨rest, here⟩ := List.head?_eq_some_iff.1 ahead
  exact ⟨by simp [State.advance, here], rfl, rfl⟩

theorem State.Proper.onto_advance (proper : s.Proper) {t : Token} (ahead : s.ahead.head? = some t) :
    s.Onto s.advance [] := by
  obtain ⟨rest, here⟩ := List.head?_eq_some_iff.1 ahead
  refine ⟨⟨(s.advance_onward proper.counted ahead).1.counted, fun u later => ?_⟩, rfl, by
    simp [State.advance]⟩
  simp only [State.advance, here, List.tail_cons] at later
  exact proper.ordinary u (by simp [here, later])

theorem State.Proper.onto_note (proper : s.Proper) (e : ParseError) :
    s.Onto { s with errors := s.errors.push e } [e] :=
  ⟨⟨proper.counted, proper.ordinary⟩, rfl, by simp⟩

theorem State.Proper.onto_synchronize (proper : s.Proper) : s.Onto s.synchronize [] := by
  have counted := proper.counted.synchronize.counted
  obtain ⟨ahead, position, last, errors⟩ := s
  cases ahead with
  | nil => exact .nil proper
  | cons t rest =>
    obtain ⟨-, -, member⟩ := boundary_counted t.kind rest (position + 1)
    refine ⟨⟨counted, fun u here => ?_⟩, rfl, by simp [State.synchronize]⟩
    exact proper.ordinary u (List.mem_cons_of_mem t (member u here))

/-- After a token that all words begin with, what is told of the rest is told of the whole. -/
theorem Told.token {result : EStateM.Result Halt State α} {t : Token} {r : Rule}
    (proper : s.Proper) (ahead : s.ahead.head? = some t)
    (told : Told r.language K s.advance result) (inhabited : ∃ w, w ∈ r.language) :
    Told (Rule.seq (.token [t.kind]) r).language K s result := by
  rw [Rule.language_seq]
  refine Told.after (proper.onto_advance ahead) (by simp [Silent])
    (State.Proper.spans_advance ahead) (.token (by simp)) ?_ inhabited told
  rintro z member -
  obtain ⟨v, here, k, there, rfl⟩ := Language.mem_mul.1 member
  cases here with
  | token listed =>
    obtain rfl := List.mem_singleton.1 listed
    exact ⟨k, there, rfl⟩

/-! ## Parsers and rules -/

/-- From every state, the outcome of the parser is told by the rule and by what may follow. -/
def Predicts (p : Parser α) (r : Rule) (K : Language TokenKind) : Prop :=
  ∀ s : State, s.Proper → Told r.language K s (p s)

/-- Words of the second rule that begin with the kind are words of the first, whatever follows. -/
structure Narrows (c r : Rule) (K : Language TokenKind) (kind : TokenKind) : Prop where
  fewer : ∀ w ∈ c.language, w ∈ r.language
  only : ∀ v, kind :: v ∈ r.language * K → kind :: v ∈ c.language * K

/-- No word begins with one of the kinds. -/
def Avoids (K : Language TokenKind) (kinds : List TokenKind) : Prop :=
  ∀ kind ∈ kinds, ∀ v, kind :: v ∉ K

theorem Avoids.mono {kinds kinds' : List TokenKind} (avoids : Avoids K kinds)
    (fewer : ∀ kind ∈ kinds', kind ∈ kinds) : Avoids K kinds' :=
  fun kind here => avoids kind (fewer kind here)

theorem Rule.avoids {r : Rule} {kinds : List TokenKind} (apart : ∀ kind ∈ kinds, kind ∉ r.firsts)
    (after : r.nullable = true → Avoids K kinds) : Avoids (r.language * K) kinds := by
  intro kind here v member
  obtain ⟨u, word, k, there, same⟩ := Language.mem_mul.1 member
  cases u with
  | nil =>
    obtain rfl : k = kind :: v := same
    exact after (Rule.Derives.nullable word rfl) kind here v there
  | cons first u =>
    obtain ⟨rfl, -⟩ := List.cons.inj same
    exact apart _ here (Rule.Derives.head_mem word _ rfl)

theorem Rule.solid_avoids {r : Rule} {kinds : List TokenKind} (solid : r.nullable = false)
    (apart : ∀ kind ∈ kinds, kind ∉ r.firsts) : Avoids (r.language * K) kinds :=
  Rule.avoids apart fun nullable => by simp [solid] at nullable

namespace Narrows

variable {a b c c' r r' : Rule} {kind : TokenKind}

theorem refl : Narrows r r K kind := ⟨fun _ word => word, fun _ member => member⟩

theorem left (narrows : Narrows c a K kind) (other : kind ∉ b.firsts) (solid : b.nullable = false) :
    Narrows c (.either a b) K kind := by
  refine ⟨fun w word => .left (narrows.fewer w word), fun v member => ?_⟩
  rw [Rule.language_either, add_mul] at member
  obtain here | here := member
  · exact narrows.only v here
  · have avoids : Avoids (b.language * K) [kind] := Rule.solid_avoids solid (by simpa using other)
    exact absurd here (avoids kind List.mem_cons_self v)

theorem right (narrows : Narrows c b K kind) (other : kind ∉ a.firsts) (solid : a.nullable = false) :
    Narrows c (.either a b) K kind := by
  refine ⟨fun w word => .right (narrows.fewer w word), fun v member => ?_⟩
  rw [Rule.language_either, add_mul] at member
  obtain here | here := member
  · have avoids : Avoids (a.language * K) [kind] := Rule.solid_avoids solid (by simpa using other)
    exact absurd here (avoids kind List.mem_cons_self v)
  · exact narrows.only v here

theorem symbol {n : Nonterminal} (narrows : Narrows c n.production K kind) :
    Narrows c (.symbol n) K kind := by
  refine ⟨fun w word => .symbol (narrows.fewer w word), fun v member => ?_⟩
  rw [Rule.language_symbol] at member
  exact narrows.only v member

/-- No word begins with the kind. -/
theorem nothing (other : kind ∉ r.firsts) (solid : r.nullable = false) :
    Narrows (.token []) r K kind := by
  refine ⟨fun w word => (nomatch word), fun v member => ?_⟩
  have avoids : Avoids (r.language * K) [kind] := Rule.solid_avoids solid (by simpa using other)
  exact absurd member (avoids kind List.mem_cons_self v)

theorem congr (narrows : Narrows c r K kind) (same : c.language = c'.language)
    (same' : r.language = r'.language) : Narrows c' r' K kind := by
  obtain ⟨fewer, only⟩ := narrows
  rw [same, same'] at fewer only
  exact ⟨fewer, only⟩

/-- Of the kinds of tokens that may come first, the one that comes. -/
theorem enter {kinds : List TokenKind} (listed : kind ∈ kinds) :
    Narrows (.seq (.token [kind]) c) (.seq (.token kinds) c) K kind := by
  refine ⟨fun w word => ?_, fun v member => ?_⟩
  · cases word with
    | seq first rest =>
      cases first with
      | token here =>
        obtain rfl := List.mem_singleton.1 here
        exact .seq (.token listed) rest
  · rw [Rule.language_seq, mul_assoc] at member ⊢
    obtain ⟨u, first, k, rest, same⟩ := Language.mem_mul.1 member
    cases first with
    | @token _ first =>
      obtain ⟨rfl, rfl⟩ := List.cons.inj same
      have single : [first] ∈ (Rule.token [first]).language := .token (List.mem_singleton_self first)
      exact Language.append_mem_mul single rest

theorem pick {kinds : List TokenKind} (listed : kind ∈ kinds) :
    Narrows (.seq (.token [kind]) .empty) (.token kinds) K kind :=
  (enter listed).congr rfl Rule.language_seq_empty

theorem seq (narrows : Narrows c r (b.language * K) kind) :
    Narrows (.seq c b) (.seq r b) K kind := by
  refine ⟨fun w word => ?_, fun v member => ?_⟩
  · cases word with
    | seq first rest => exact .seq (narrows.fewer _ first) rest
  · rw [Rule.language_seq, mul_assoc] at member ⊢
    exact narrows.only v member

/-- Words that begin with what may be left out, if what follows can only begin so in the same way. -/
theorem take (closed : ∀ v, kind :: v ∈ K → kind :: v ∈ a.language * K) :
    Narrows a a.option K kind := by
  refine ⟨fun w word => .left word, fun v member => ?_⟩
  rw [Rule.language_option, add_mul, one_mul] at member
  obtain here | here := member
  · exact here
  · exact closed v here

theorem leave (other : kind ∉ a.firsts) (solid : a.nullable = false) :
    Narrows .empty a.option K kind :=
  refl.right other solid

/-- The rounds that are left stop where the repetition may not go on. -/
theorem stop (apart : kind ∉ r.firsts) (solid : r.nullable = false) :
    Narrows .empty (.star r) K kind := by
  refine ⟨fun w word => ?_, fun v member => ?_⟩
  · cases word
    exact .done
  · rw [Rule.language_star, add_mul, mul_assoc] at member
    rw [Rule.language_empty]
    obtain here | here := member
    · exact here
    · have avoids : Avoids (r.language * ((Rule.star r).language * K)) [kind] :=
        Rule.solid_avoids solid (by simpa using apart)
      exact absurd here (avoids kind List.mem_cons_self v)

theorem round (avoids : Avoids K [kind]) :
    Narrows (.seq r (.star r)) (.star r) K kind := by
  refine ⟨fun w word => ?_, fun v member => ?_⟩
  · cases word with
    | seq once others => exact .more once others
  · rw [Rule.language_star, add_mul, one_mul] at member
    rw [Rule.language_seq]
    obtain here | here := member
    · exact absurd here (avoids kind List.mem_cons_self v)
    · exact here

theorem selected {forms : List (TokenKind × Rule)} {otherwise : Rule} (listed : (kind, c) ∈ forms)
    (distinct : (forms.map Prod.fst).Nodup)
    (other : kind ∉ otherwise.firsts) (solid : otherwise.nullable = false) :
    Narrows (.seq (.token [kind]) c) (.select forms otherwise) K kind := by
  induction forms with
  | nil => cases listed
  | cons form forms inductionHypothesis =>
    rw [List.map_cons, List.nodup_cons] at distinct
    obtain ⟨fresh, distinct⟩ := distinct
    cases listed with
    | head =>
      refine .left .refl ?_ ((Rule.select_nullable forms otherwise).trans solid)
      rw [Rule.select_firsts, List.mem_append, not_or]
      exact ⟨fresh, other⟩
    | tail _ listed =>
      refine .right (inductionHypothesis listed distinct) ?_ rfl
      have key : kind ∈ forms.map Prod.fst := List.mem_map_of_mem listed
      simp only [Rule.firsts, Rule.nullable, Bool.false_eq_true, if_false, List.append_nil,
        List.mem_singleton]
      rintro rfl
      exact fresh key

theorem unselected {forms : List (TokenKind × Rule)} {otherwise : Rule}
    (unlisted : kind ∉ forms.map Prod.fst) :
    Narrows otherwise (.select forms otherwise) K kind := by
  induction forms with
  | nil => exact .refl
  | cons form forms inductionHypothesis =>
    rw [List.map_cons, List.mem_cons, not_or] at unlisted
    refine .right (inductionHypothesis unlisted.2) ?_ rfl
    simpa [Rule.firsts, Rule.nullable] using unlisted.1

end Narrows

namespace Predicts

variable {p : Parser α} {f : α → Parser β} {a b c r : Rule} {kind : TokenKind}

theorem congr (predicts : Predicts p a K) (same : a.language = b.language) : Predicts p b K := by
  intro s proper
  rw [← same]
  exact predicts s proper

theorem pure {x : α} : Predicts (pure x) .empty K := by
  intro s proper
  refine .passed (.nil proper) (by simp [Silent]) (.nil s) .empty ?_
  rintro z member -
  rw [Rule.language_empty, one_mul] at member
  exact ⟨z, member, rfl⟩

theorem tooDeep : Predicts (α := α) tooDeep r K := fun _ _ => .tooDeep

theorem note {fault : ParseFault} (noted : fault.raised = false) (place : Occurrence) :
    Predicts (note fault place) .empty K := by
  intro s proper
  have spans : s.Spans [] { s with errors := s.errors.push ⟨fault, place⟩ } := ⟨rfl, rfl, rfl⟩
  refine Told.passed (proper.onto_note _) (by simpa [Silent] using noted) spans .empty ?_
  rintro z member -
  rw [Rule.language_empty, one_mul] at member
  exact ⟨z, member, rfl⟩

theorem noteHere {fault : ParseFault} (noted : fault.raised = false) :
    Predicts (noteHere fault) .empty K :=
  fun s => note noted s.current s

/-- The parser halts where no word goes on. -/
theorem fail {fault : ParseFault} (raised : fault.raised = true) :
    Predicts (α := α) (fail fault) (.token []) K := by
  intro s proper
  refine Told.halted (proper.onto_note ⟨fault, s.current⟩) (List.find?_cons_of_pos raised) ?_
  refine ⟨[], s, .nil s, rfl, .inl rfl, fun z member => ?_⟩
  obtain ⟨w, word, -⟩ := Language.mem_mul.1 member
  cases word with
  | token listed => cases listed

theorem bind (first : Predicts p a (b.language * K)) (second : ∀ x, Predicts (f x) b K)
    (productive : b.productive Nonterminal.all = true) : Predicts (p >>= f) (.seq a b) K := by
  intro s proper
  rw [Rule.language_seq]
  exact (first s proper).bind (fun x s' proper' => second x s' proper')
    (Rule.exists_word productive)

/-- Goes on with a parser that reads nothing. -/
theorem finish (first : Predicts p a K) (last : ∀ x, Predicts (f x) .empty K) :
    Predicts (p >>= f) a K := by
  have first' : Predicts p a (Rule.empty.language * K) := by rwa [Rule.language_empty, one_mul]
  exact (first'.bind last rfl).congr Rule.language_seq_empty

theorem map {g : α → β} (predicts : Predicts p a K) : Predicts (g <$> p) a K :=
  predicts.finish (f := fun x => Pure.pure (g x)) fun _ => pure

/-- Goes on after a parser that reads nothing. -/
theorem andThen (first : ∀ K, Predicts p .empty K) (second : ∀ x, Predicts (f x) b K)
    (productive : b.productive Nonterminal.all = true) : Predicts (p >>= f) b K :=
  ((first _).bind second productive).congr Rule.language_empty_seq

/-! ### Choice by the next token -/

theorem accept? {kinds : List TokenKind} {f : Option Occurrence → Parser β}
    (ordinary : .endOfInput ∉ kinds)
    (absent : ∀ kind ∉ kinds, ∃ c, Predicts (f none) c K ∧ Narrows c r K kind)
    (present : ∀ o : Occurrence, o.token.kind ∈ kinds → ∃ c, Predicts (f (some o)) c K ∧
      c.productive Nonterminal.all = true ∧
        Narrows (.seq (.token [o.token.kind]) c) r K o.token.kind) :
    Predicts (accept? kinds >>= f) r K := by
  intro s proper
  by_cases next : s.nextKind ∈ kinds
  · obtain ⟨t, ahead, listed, same⟩ := State.exists_of_nextKind ordinary next
    obtain ⟨c, predicts, productive, narrows⟩ := present ⟨s.position, t⟩ listed
    rw [bind_ok (accept?_ok t ahead listed)]
    have told := Told.token proper ahead (predicts _ (proper.onto_advance ahead).proper)
      (Rule.exists_word productive)
    -- With this token next, a word of the rule is one of the branch that the token opens.
    exact told.focus narrows.fewer (by rw [same]; exact narrows.only)
  · obtain ⟨c, predicts, narrows⟩ := absent _ next
    rw [bind_ok (accept?_avoids (State.avoids_of_nextKind next))]
    exact (predicts s proper).focus narrows.fewer narrows.only

theorem accept {f : Bool → Parser β} (ordinary : kind ≠ .endOfInput)
    (absent : ∀ other ≠ kind, ∃ c, Predicts (f false) c K ∧ Narrows c r K other)
    (present : ∃ c, Predicts (f true) c K ∧ c.productive Nonterminal.all = true ∧
      Narrows (.seq (.token [kind]) c) r K kind) : Predicts (accept kind >>= f) r K := by
  have same : (Grammar.accept kind >>= f) = (Grammar.accept? [kind] >>= fun o => f o.isSome) := by
    rw [Grammar.accept, bind_assoc]
    simp only [pure_bind]
  rw [same]
  refine accept? (by simpa using ordinary.symm) (by simpa using absent) fun o listed => ?_
  rw [List.mem_singleton.1 listed]
  exact present

theorem expect {fault : ParseFault} (ordinary : kind ≠ .endOfInput) (raised : fault.raised = true) :
    Predicts (expect kind fault) (.token [kind]) K := by
  refine accept? (by simpa using ordinary.symm) (fun other apart => ?_) fun o listed => ?_
  · exact ⟨_, fail raised, .nothing apart rfl⟩
  · rw [List.mem_singleton.1 listed]
    exact ⟨.empty, pure, rfl, Narrows.refl.congr Rule.language_seq_empty.symm rfl⟩

theorem skip {fault : ParseFault} (ordinary : kind ≠ .endOfInput) (raised : fault.raised = true) :
    Predicts (skip kind fault) (.token [kind]) K :=
  (expect ordinary raised).finish fun _ => pure

theorem next {f : Bool → Parser β} (ordinary : kind ≠ .endOfInput)
    (closed : ∃ c, Predicts (f true) c K ∧ Narrows c r K kind)
    (opened : ∀ other ≠ kind, ∃ c, Predicts (f false) c K ∧ Narrows c r K other) :
    Predicts (next kind >>= f) r K := by
  intro s proper
  by_cases next : s.nextKind = kind
  · obtain ⟨t, ahead, listed, -⟩ :=
      State.exists_of_nextKind (by simpa using ordinary.symm) (List.mem_singleton.2 next)
    obtain ⟨c, predicts, narrows⟩ := closed
    rw [bind_ok (next_meets ⟨t, ahead, listed⟩)]
    exact (predicts s proper).focus narrows.fewer (by rw [next]; exact narrows.only)
  · obtain ⟨c, predicts, narrows⟩ := opened _ next
    rw [bind_ok (next_avoids (State.avoids_of_nextKind (by simpa using next)))]
    exact (predicts s proper).focus narrows.fewer narrows.only

/-- A part that begins with a token of its own and may be left out. -/
theorem optional {f : Bool → Parser β} (ordinary : kind ≠ .endOfInput)
    (present : Predicts (f true) (.seq a b) K)
    (productive : (Rule.seq a b).productive Nonterminal.all = true)
    (absent : Predicts (f false) b K)
    (closed : ∀ v, kind :: v ∈ b.language * K →
      kind :: v ∈ (Rule.seq (.token [kind]) a).language * (b.language * K)) :
    Predicts (Grammar.accept kind >>= f) (.seq (.option (.seq (.token [kind]) a)) b) K := by
  refine accept ordinary (fun other apart => ⟨b, absent, ?_⟩) ⟨_, present, productive, ?_⟩
  · have left : Narrows .empty (.option (.seq (.token [kind]) a)) (b.language * K) other :=
      .leave (by simpa [Rule.firsts, Rule.nullable] using apart) rfl
    exact left.seq.congr Rule.language_empty_seq rfl
  · have taken := (Narrows.take closed).seq
    exact taken.congr Rule.language_seq_seq rfl

/-- A part that may be left out before a token. -/
theorem before {f : Bool → Parser β} (ordinary : kind ≠ .endOfInput)
    (closed : Predicts (f true) b K) (opened : Predicts (f false) (.seq a b) K)
    (apart : kind ∉ a.firsts) (solid : a.nullable = false) (only : ∀ other ∈ b.firsts, other = kind)
    (solid' : b.nullable = false) : Predicts (Grammar.next kind >>= f) (.seq a.option b) K := by
  refine next ordinary ⟨b, closed, ?_⟩ fun other apart' => ⟨_, opened, ?_⟩
  · exact (Narrows.leave apart solid).seq.congr Rule.language_empty_seq rfl
  · have avoids : Avoids (b.language * K) [other] :=
      Rule.solid_avoids solid' (by simpa using fun listed => apart' (only _ listed))
    exact (Narrows.take fun v member => absurd member (avoids other List.mem_cons_self v)).seq

/-! ### Recovery -/

theorem recovering (predicts : Predicts p r K) : Predicts (recovering p) r K := by
  intro s proper
  have told := predicts s proper
  unfold Grammar.recovering
  cases outcome : p s with
  | ok x s' =>
    rw [outcome] at told
    cases told with
    | passed onto silent spans word forced => exact .passed onto silent spans word forced
    | recovered onto first blamed => exact .recovered onto first blamed
  | error halt s' =>
    rw [outcome] at told
    cases told with
    | halted onto first blamed =>
      -- Recovery only moves on, past tokens that come after the blamed one.
      have later := onto.trans onto.proper.onto_synchronize
      rw [List.append_nil] at later
      exact .recovered later first blamed
    | tooDeep => exact .tooDeep

end Predicts

end Lox.Grammar
