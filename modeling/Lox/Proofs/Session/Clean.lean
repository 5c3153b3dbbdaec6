import Lox.Proofs.Grammar.Concatenation
import Lox.Proofs.Scope.Visits
import Lox.Proofs.Session.Rejection
import Lox.Proofs.Text.Concatenation

/-!
# Texts without a fault

A text is clean if no fault is found in it before it runs. Two clean texts, one after the other with a
line end between them, are a clean text. Its program is that of the first text followed by that of the
second one, with the tokens of the second on later lines.
-/

namespace Lox

variable {limits : Limits}

/-! ## Clean texts under other numbers -/

theorem check?_eq_nil_iff {source : String} :
    check? limits source = some [] ↔ ∃ program, Clean limits 0 source program := by
  simp only [check?, resolve?, Option.bind_eq_bind]
  constructor
  · intro checked
    cases parses : parse? limits.nesting 0 (scan source).tokens with
    | none => simp [parses] at checked
    | some parsed =>
      simp only [parses, Option.bind_some] at checked
      split at checked
      · next clean =>
        obtain ⟨scanned, faultless⟩ := syntaxErrors_isEmpty.1 clean
        obtain ⟨program, errors⟩ := parsed
        obtain rfl : errors = [] := faultless
        by_cases fits : Stmt.allFit program limits.height = true
        · refine ⟨program, scanned, parses, fits, ?_⟩
          simpa [fits] using checked
        · simp [fits] at checked
      · next faulty =>
        obtain empty := Option.some.inj checked
        simp [empty] at faulty
  · rintro ⟨program, scanned, parsed, fits, resolved⟩
    simp [parsed, syntaxErrors, scanned, fits, resolved]

/-- The numbers of the tokens do not matter. -/
theorem Clean.renumber {start : Nat} {source : String} {program : Program}
    (clean : Clean limits start source program) (start' : Nat) :
    ∃ program', Clean limits start' source program' := by
  obtain ⟨scanned, parsed, fits, resolved⟩ := clean
  have parses := parse?_renumbered limits.nesting start start' source
  rw [parsed] at parses
  obtain ⟨program', there, trees⟩ := Parse.faultless_matched parses
  refine ⟨program', scanned, there, ?_, ?_⟩
  · rw [Stmt.allFit_matched trees]
    exact fits
  · rw [scopeErrors_renumbered (resolve_matched trees)]
    exact resolved

/-! ## The tokens of a program -/

theorem exists_of_forall₂ {α β : Type} {R : α → β → Prop} {as : List α} {bs : List β}
    (all : List.Forall₂ R as bs) : ∀ a ∈ as, ∃ b, R a b := by
  induction all with
  | nil => simp
  | cons first _ inductionHypothesis => exact List.forall_mem_cons.2 ⟨⟨_, first⟩, inductionHypothesis⟩

/-- Tokens of the texts and the same tokens some lines further down, as far as they may occur. -/
def Matching.moved (lines : Nat) (texts : List Token) (occurs : Occurrence → Prop) : Matching where
  tokens t t' := t ∈ texts ∧ t' = t.down lines
  occurrences o o' := occurs o ∧ o.token ∈ texts ∧ o' = ⟨o.id, o.token.down lines⟩
  text := by
    rintro t _ ⟨-, rfl⟩
    exact ⟨rfl, rfl, rfl⟩
  token := by
    rintro o _ ⟨-, member, rfl⟩
    exact ⟨member, rfl⟩

theorem Matching.moved_le {lines : Nat} {texts texts' : List Token}
    {occurs occurs' : Occurrence → Prop} (more : ∀ t ∈ texts, t ∈ texts')
    (wider : ∀ o, occurs o → occurs' o) :
    Matching.moved lines texts occurs ≤ .moved lines texts' occurs' :=
  ⟨fun _ _ matched => ⟨more _ matched.1, matched.2⟩,
    fun _ _ matched => ⟨wider _ matched.1, more _ matched.2.1, matched.2.2⟩⟩

/-- The occurrence is one of a text whose tokens are numbered from `start` on. -/
def OccursIn (source : String) (start : Nat) (o : Occurrence) : Prop :=
  start ≤ o.id ∧ (textTokens source)[o.id - start]? = some o.token

theorem OccursIn.bound {source : String} {start : Nat} {o : Occurrence}
    (occurs : OccursIn source start o) : o.id < start + (textTokens source).length := by
  obtain ⟨inside, -⟩ := List.getElem?_eq_some_iff.1 occurs.2
  have own := occurs.1
  omega

theorem takeWhile_tokens {body : List Token} (ordinary : Grammar.IsBody body) (line : Int) :
    (body ++ [endToken line]).takeWhile (·.kind != .endOfInput) = body := by
  rw [List.takeWhile_append_of_pos (fun t here => by simpa using ordinary t here)]
  simp [endToken]

/-- A text that stands further down in another one is parsed in the same way, on later lines. -/
theorem parse?_moved (depth start : Nat) (source : String) (lines : Nat) :
    Option.Rel (Parse.Matched (.moved lines (scan source).tokens (OccursIn source start)))
      (parse? depth start (scan source).tokens)
      (parse? depth start ((scan source).tokens.map (Token.down lines))) := by
  have tokens : List.Forall₂ (Matching.moved lines (scan source).tokens
      (OccursIn source start)).tokens (scan source).tokens
        ((scan source).tokens.map (Token.down lines)) := by
    rw [List.forall₂_map_right_iff]
    exact List.forall₂_same.2 fun t member => ⟨member, rfl⟩
  have initial : (Grammar.State.initial start (scan source).tokens).Matched _
      (.initial start ((scan source).tokens.map (Token.down lines))) :=
    Grammar.State.initial_matched tokens (scan_ended source) fun i t t' here matched => by
      rw [scan_tokens, takeWhile_tokens (textTokens_kind source)] at here
      refine ⟨⟨Nat.le_add_right _ _, ?_⟩, matched.1, by rw [matched.2]⟩
      rwa [Nat.add_sub_cancel_left]
  exact parse?_matched initial depth

/-- The program of a text without errors is the same further down, on later lines. -/
theorem parse?_down {depth start : Nat} {source : String} {program : Program}
    (parsed : parse? depth start (scan source).tokens = some ⟨program, []⟩) (lines : Nat) :
    ∃ program', parse? depth start ((scan source).tokens.map (Token.down lines)) =
        some ⟨program', []⟩ ∧
      List.Forall₂ (Stmt.Matched (.moved lines (scan source).tokens (OccursIn source start)))
        program program' := by
  have parses := parse?_moved depth start source lines
  rw [parsed] at parses
  exact Parse.faultless_matched parses

/-- The errors of a parse are at tokens of the text. -/
theorem parse?_places {depth start : Nat} {source : String} {parsed : Parse}
    (result : parse? depth start (scan source).tokens = some parsed) :
    ∀ e ∈ parsed.errors, e.place.token ∈ (scan source).tokens := by
  have parses := parse?_moved depth start source 0
  rw [result] at parses
  generalize parse? depth start _ = other at parses
  cases parses with
  | some matched =>
    intro e member
    obtain ⟨e', related⟩ := exists_of_forall₂ matched.errors e member
    exact related.place.1

/-- The tokens of a program are those of its text. -/
theorem Clean.own {start : Nat} {source : String} {program : Program}
    (clean : Clean limits start source program) :
    List.Forall₂ (Stmt.Matched (.moved 0 (scan source).tokens (OccursIn source start)))
      program program := by
  obtain ⟨program', parsed, matched⟩ := parse?_down clean.parsed 0
  have same : (scan source).tokens.map (Token.down 0) = (scan source).tokens :=
    (List.map_congr_left fun t _ => t.down_zero).trans (List.map_id _)
  rw [same, clean.parsed] at parsed
  cases parsed
  exact matched

/-! ## Two texts -/

theorem Stmt.allFit_append (ss ss' : List Stmt) (n : Nat) :
    Stmt.allFit (ss ++ ss') n = (Stmt.allFit ss n && Stmt.allFit ss' n) := by
  induction ss with
  | nil => rfl
  | cons s rest inductionHypothesis =>
    simp only [List.cons_append, Stmt.allFit, inductionHypothesis, Bool.and_assoc]

/-- No declaration at top level opens a scope. -/
theorem Stmt.after_topLevel (s : Stmt) : s.after .topLevel = .topLevel := by
  obtain ⟨context, -, origins⟩ := s.after_advances .topLevel
  generalize s.after .topLevel = p at context origins
  obtain ⟨levels, surroundings⟩ := p
  obtain rfl : surroundings = _ := context
  obtain rfl : levels = [] := List.map_eq_nil_iff.1 origins
  rfl

theorem programVisits_append (program program' : Program) :
    programVisits (program ++ program') = programVisits program ++ programVisits program' := by
  rw [programVisits, programVisits, programVisits]
  induction program with
  | nil => rfl
  | cons s rest inductionHypothesis =>
    rw [List.cons_append, Stmt.allVisits, Stmt.allVisits, Stmt.after_topLevel, inductionHypothesis,
      List.append_assoc]

theorem resolve_append (program program' : Program) :
    resolve (program ++ program') =
      { bindings := (resolve program).bindings ++ (resolve program').bindings
        errors := (resolve program).errors ++ (resolve program').errors } := by
  simp only [resolve_eq, programVisits_append, List.filterMap_append, List.flatMap_append]

/-- Two clean texts on lines of their own are one clean text. -/
theorem Clean.join {start : Nat} {first second : String} {program program' : Program}
    (clean : Clean limits start first program)
    (clean' : Clean limits (start + (textTokens first).length) second program') :
    ∃ below, Clean limits start (first ++ "\n" ++ second) (program ++ below) ∧
      List.Forall₂ (Stmt.Matched (.moved (linesBefore first) (scan second).tokens
        (OccursIn second (start + (textTokens first).length)))) program' below := by
  obtain ⟨below, parsed, matched⟩ := parse?_down clean'.parsed (linesBefore first)
  refine ⟨below, ⟨scan_join_errors clean.scanned clean'.scanned, ?_, ?_, ?_⟩, matched⟩
  · have ordinary : Grammar.IsBody ((textTokens second).map (Token.down (linesBefore first))) :=
      List.forall_mem_map.2 fun t member => textTokens_kind second t member
    have first' := clean.parsed
    rw [scan_tokens] at first'
    rw [scan_tokens, List.map_append] at parsed
    rw [scan_tokens, textTokens_join clean.scanned]
    exact Grammar.parse?_append (textTokens_kind first) ordinary rfl rfl rfl first' parsed
  · rw [Stmt.allFit_append, clean.fits, Stmt.allFit_matched matched, clean'.fits]
    rfl
  -- The resolver finds below the first text just what it finds in the second alone.
  · have faults := (resolve_matched matched).errors
    rw [clean'.resolved] at faults
    cases none : (resolve below).errors with
    | nil => simp only [resolve_append, clean.resolved, none, List.append_nil]
    | cons error others =>
      rw [none] at faults
      cases faults

theorem check?_join {first second : String} (clean : check? limits first = some [])
    (clean' : check? limits second = some []) :
    check? limits (first ++ "\n" ++ second) = some [] := by
  obtain ⟨program, clean⟩ := check?_eq_nil_iff.1 clean
  obtain ⟨_, clean'⟩ := check?_eq_nil_iff.1 clean'
  obtain ⟨program', clean'⟩ := clean'.renumber (0 + (textTokens first).length)
  obtain ⟨below, joined, -⟩ := clean.join clean'
  exact check?_eq_nil_iff.2 ⟨_, joined⟩

end Lox
