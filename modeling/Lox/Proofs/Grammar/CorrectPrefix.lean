import Lox.Proofs.Grammar.Language
import Lox.Proofs.Grammar.PredictedPrograms

/-!
# Errors at the first possible token

A parse that raises no fault has read a program of the relaxed grammar. Otherwise the first fault that is
raised stands at the first token with which no program goes on.
-/

namespace Lox.Grammar

variable {start : Nat} {body : List Token} {last : Token}

theorem State.Proper.initial (ordinary : IsBody body) (ended : last.kind = .endOfInput) :
    (State.initial start (body ++ [last])).Proper := by
  obtain ⟨counted, -⟩ := State.initial_passes start ordinary ended
  refine ⟨counted, ?_⟩
  rw [State.initial_eq ordinary ended]
  exact ordinary

/-- The token at the place is the first with which no program goes on. -/
structure Offends (start : Nat) (tokens : List Token) (place : Occurrence) (i : Nat) : Prop where
  here : ∃ t, tokens[i]? = some t ∧ place = ⟨start + i, t⟩
  viable : ∃ word, IsProgram word ∧ kinds (tokens.take i) <+: word
  stuck : ∀ word, IsProgram word → ¬kinds (tokens.take (i + 1)) <+: word

/-- What lies before the place of a state, and the token there. -/
theorem State.Spans.current (ordinary : IsBody body) (ended : last.kind = .endOfInput)
    {ts : List Token} {s : State} (spans : (State.initial start (body ++ [last])).Spans ts s) :
    ∃ t rest, body ++ [last] = ts ++ t :: rest ∧ s.current = ⟨start + ts.length, t⟩ ∧
      s.nextKind = t.kind := by
  rw [State.initial_eq ordinary ended] at spans
  obtain ⟨ahead, position, same⟩ := spans
  simp only at ahead position same
  subst ahead
  unfold State.current State.nextKind
  cases ahead : s.ahead with
  | nil => exact ⟨last, [], by simp, by simp [same, ahead], by simp [ended]⟩
  | cons t rest => exact ⟨t, rest ++ [last], by simp, by simp [position], rfl⟩

theorem Blamed.offends (ordinary : IsBody body) (ended : last.kind = .endOfInput) {e : ParseError}
    (blamed : Blamed Rule.program.language endOnly (State.initial start (body ++ [last])) e) :
    ¬IsProgram (kinds body) ∧ ∃ i, Offends start (body ++ [last]) e.place i := by
  obtain ⟨ts, stop, spans, place, viable, stuck⟩ := blamed
  obtain ⟨t, rest, split, current, next⟩ := spans.current ordinary ended
  -- Up to the blamed token and with it: what was read, then a kind that no program goes on with.
  have front : kinds ((body ++ [last]).take (ts.length + 1)) = kinds ts ++ [stop.nextKind] := by
    rw [split, next, List.take_length_add_append]
    simp [kinds]
  have closes : ∀ word, IsProgram word → word ++ [.endOfInput] ∈ Rule.program.language * endOnly :=
    fun word program => Language.append_mem_mul program rfl
  refine ⟨fun program => ?_, ts.length, ⟨t, by simp [split], place.trans current⟩, ?_, ?_⟩
  · refine stuck _ (closes _ program) ?_
    have whole : kinds body ++ [.endOfInput] = kinds (body ++ [last]) := by simp [kinds, ended]
    rw [whole, ← front]
    exact (List.take_prefix _ _).map Token.kind
  · rw [split, List.take_left]
    obtain rfl | viable := viable
    · exact ⟨[], .done, List.prefix_refl _⟩
    · exact viable
  · intro word program goesOn
    rw [front] at goesOn
    exact stuck _ (closes word program) (goesOn.trans (List.prefix_append word _))

theorem parse?_told (ordinary : IsBody body) (ended : last.kind = .endOfInput) {depth : Nat}
    {parsed : Parse} (parses : parse? depth start (body ++ [last]) = some parsed) :
    match firstRaised? parsed.errors with
    | none => IsProgram (kinds body)
    | some e => ¬IsProgram (kinds body) ∧ ∃ i, Offends start (body ++ [last]) e.place i := by
  have proper : (State.initial start (body ++ [last])).Proper := .initial ordinary ended
  have told := program_predicts depth _ proper
  obtain ⟨statements, errors⟩ := parsed
  obtain ⟨s, outcome, rfl⟩ := parse?_eq_some_iff.1 parses
  rw [outcome] at told
  have fresh : (State.initial start (body ++ [last])).errors.toList = [] := by
    rw [State.initial_eq ordinary ended]
  cases told with
  | @passed _ _ new ts onto silent spans word =>
    -- Without a fault the parser stops at the end of the list only, so it has read all of it.
    have errors : s.errors.toList = new := by rw [onto.errors, fresh, List.nil_append]
    have none : firstRaised? s.errors.toList = none := by
      rw [errors, firstRaised?, List.find?_eq_none]
      intro e here
      simp [silent e here]
    have read : body = ts := by
      have all : s.ahead = [] := program_ended proper outcome onto.proper (errors ▸ silent)
      have ahead := spans.ahead
      rw [State.initial_eq ordinary ended, all, List.append_nil] at ahead
      exact ahead
    simp only [none]
    rw [read]
    exact word
  | @recovered _ _ new e onto first blamed =>
    have errors : s.errors.toList = new := by rw [onto.errors, fresh, List.nil_append]
    simp only [errors, first]
    exact blamed.offends ordinary ended

theorem Offends.atEnd_iff {place : Occurrence} {i : Nat} (offends : Offends start (body ++ [last]) place i) :
    i = body.length ↔ ∃ word, IsProgram word ∧ kinds body <+: word := by
  obtain ⟨⟨t, here, -⟩, viable, stuck⟩ := offends
  have bounded : i < body.length + 1 := by
    simpa using (List.getElem?_eq_some_iff.1 here).1
  constructor
  · rintro rfl
    simpa using viable
  · rintro ⟨word, program, goesOn⟩
    by_contra other
    have before : i + 1 ≤ body.length := by omega
    refine stuck word program (List.IsPrefix.trans ?_ goesOn)
    rw [List.take_append_of_le_length before]
    exact (List.take_prefix _ _).map Token.kind

end Lox.Grammar

namespace Lox

open Grammar

/--
A token list that ends with its only end-of-input token is a program of the relaxed grammar if no fault
is raised. Otherwise it is none, and the first fault raised is at the first token with which no program
goes on. That is the end of the input just if the tokens before it are the front of a program.
-/
theorem parse?_correct_prefix (start : Nat) (body : List Token) (last : Token)
    (ordinary : IsBody body) (ended : last.kind = .endOfInput) :
    (∀ depth, 2 * body.length + 2 ≤ depth →
      ∃ parsed, parse? depth start (body ++ [last]) = some parsed) ∧
    ∀ depth parsed, parse? depth start (body ++ [last]) = some parsed →
      match firstRaised? parsed.errors with
      | none => IsProgram (kinds body)
      | some e => ¬IsProgram (kinds body) ∧ ∃ i, Offends start (body ++ [last]) e.place i ∧
          (i = body.length ↔ ∃ word, IsProgram word ∧ kinds body <+: word) := by
  refine ⟨fun depth ample => parse?_isSome ordinary ended ample, fun depth parsed parses => ?_⟩
  have told := parse?_told ordinary ended parses
  cases first : firstRaised? parsed.errors with
  | none => simpa only [first] using told
  | some e =>
    simp only [first] at told ⊢
    obtain ⟨faulty, i, offends⟩ := told
    exact ⟨faulty, i, offends, offends.atEnd_iff⟩

/-- The tokens of `a = 1 = 2; print (b; }`, without the token that closes them. -/
def openGroup : List Token :=
  [.ofKind .identifier "a", .ofKind .equal "=", .ofKind .number "1", .ofKind .equal "=",
    .ofKind .number "2", .ofKind .semicolon ";", .ofKind .kwPrint "print", .ofKind .leftParen "(",
    .ofKind .identifier "b", .ofKind .semicolon ";", .ofKind .rightBrace "\x7d"]

/-- The target of the second assignment is only noted; the group that is not closed is the first fault. -/
theorem parse?_correct_prefix_openGroup :
    ∃ parsed e, parse? 24 0 (openGroup ++ [endToken 1]) = some parsed ∧
      firstRaised? parsed.errors = some e ∧ e.fault = .noGroupingEnd ∧
      ¬IsProgram (kinds openGroup) ∧
      Offends 0 (openGroup ++ [endToken 1]) e.place 9 := by
  have ordinary : IsBody openGroup := by
    unfold IsBody
    decide
  obtain ⟨total, told⟩ := parse?_correct_prefix 0 openGroup (endToken 1) ordinary rfl
  obtain ⟨parsed, parses⟩ := total 24 (by decide)
  have computed : ((parse? 24 0 (openGroup ++ [endToken 1])).bind (firstRaised? ·.errors)).map
      (fun e => (e.fault, e.place.id)) = some (.noGroupingEnd, 9) := by decide +kernel
  rw [parses, Option.bind_some, Option.map_eq_some_iff] at computed
  obtain ⟨e, first, same⟩ := computed
  have told := told 24 parsed parses
  simp only [first] at told
  obtain ⟨faulty, i, offends, -⟩ := told
  obtain ⟨t, here, place⟩ := offends.here
  -- Tokens are numbered from the start on, so the number of the blamed one is its index.
  obtain rfl : 9 = i := by
    have same := (congrArg Prod.snd same).symm.trans (congrArg Occurrence.id place)
    simpa using same
  exact ⟨parsed, e, parses, first, congrArg Prod.fst same, faulty, offends⟩

end Lox
