import Lox.Proofs.Grammar.Upcoming
import Lox.Proofs.Matching.Trees
import Mathlib.Data.List.TakeDrop
import Mathlib.Data.List.TakeWhile

/-!
# Parsing texts that match

A parser looks at the kinds of tokens only. So on matching tokens it takes the same course: it halts for
the same reason, notes the same faults at matching places, and yields matching trees.
-/

namespace Lox

variable {M : Matching}

/-- The same fault at matching places. -/
structure ParseError.Matched (M : Matching) (e e' : ParseError) : Prop where
  fault : e'.fault = e.fault
  place : M.tokens e.place.token e'.place.token

namespace Grammar

/-- Two parsers stand in front of matching tokens. -/
structure State.Matched (M : Matching) (s s' : State) : Prop where
  upcoming : List.Forall₂ M.occurrences s.upcoming s'.upcoming
  last : M.tokens s.last.token s'.last.token
  errors : List.Forall₂ (ParseError.Matched M) s.errors.toList s'.errors.toList
  remaining : s'.remaining = s.remaining

/-- Matching states, taken apart: both are at the end, or both have a next token. -/
theorem State.Matched.cases {s s' : State} (matched : s.Matched M s') :
    (s.ahead = [] ∧ s'.ahead = []) ∨ ∃ t rest t' rest', s.ahead = t :: rest ∧
      s'.ahead = t' :: rest' ∧ M.occurrences ⟨s.position, t⟩ ⟨s'.position, t'⟩ ∧
      ({ s with ahead := rest, position := s.position + 1 } : State).Matched M
        { s' with ahead := rest', position := s'.position + 1 } := by
  obtain ⟨ahead, position, last, errors⟩ := s
  obtain ⟨ahead', position', last', errors'⟩ := s'
  obtain ⟨upcoming, lastMatched, errorsMatched, remaining⟩ := matched
  cases ahead with
  | nil =>
    cases ahead' with
    | nil => exact .inl ⟨rfl, rfl⟩
    | cons => cases upcoming
  | cons t rest =>
    cases ahead' with
    | nil => cases upcoming
    | cons t' rest' =>
      cases upcoming with
      | cons first others =>
        right
        refine ⟨t, rest, t', rest', rfl, rfl, first, others, lastMatched, errorsMatched, ?_⟩
        simp only [State.remaining] at remaining ⊢
        omega

theorem State.Matched.current {s s' : State} (matched : s.Matched M s') :
    M.tokens s.current.token s'.current.token := by
  rw [State.current, State.current]
  obtain ⟨ended, ended'⟩ | ⟨t, rest, t', rest', ahead, ahead', first, -⟩ := matched.cases
  · rw [ended, ended']
    exact matched.last
  · rw [ahead, ahead']
    exact M.token _ _ first

/-! ## Parsers in parallel -/

variable {α α' β β' : Type}

/-- From matching states the parsers end alike, and results are related by `Q`. -/
def Parallel (M : Matching) (p : Parser α) (p' : Parser α') (Q : α → α' → Prop) : Prop :=
  ∀ s s', s.Matched M s' →
    match p s, p' s' with
    | .ok a t, .ok a' t' => t.Matched M t' ∧ Q a a'
    | .error halt t, .error halt' t' => halt' = halt ∧ t.Matched M t'
    | _, _ => False

namespace Parallel

variable {p : Parser α} {p' : Parser α'} {Q : α → α' → Prop} {R : β → β' → Prop}

theorem pure {a : α} {a' : α'} (related : Q a a') : Parallel M (pure a) (pure a') Q :=
  fun _ _ matched => ⟨matched, related⟩

theorem throw (halt : Halt) : Parallel M (throw halt) (throw halt) Q :=
  fun _ _ matched => ⟨rfl, matched⟩

/-- Both parsers have a result, or both halt for the same reason. -/
theorem ends (parallel : Parallel M p p' Q) {s s' : State} (matched : s.Matched M s') :
    (∃ a t a' t', p s = .ok a t ∧ p' s' = .ok a' t' ∧ t.Matched M t' ∧ Q a a') ∨
      ∃ halt t t', p s = .error halt t ∧ p' s' = .error halt t' ∧ t.Matched M t' := by
  have here := parallel s s' matched
  split at here
  · next a t a' t' result result' => exact .inl ⟨a, t, a', t', result, result', here⟩
  · next halt t halt' t' result result' =>
    obtain ⟨rfl, states⟩ := here
    exact .inr ⟨halt', t, t', result, result', states⟩
  · exact here.elim

theorem bind {f : α → Parser β} {f' : α' → Parser β'} (first : Parallel M p p' Q)
    (second : ∀ a a', Q a a' → Parallel M (f a) (f' a') R) :
    Parallel M (p >>= f) (p' >>= f') R := by
  intro s s' matched
  obtain ⟨a, t, a', t', result, result', states, related⟩ | ⟨halt, t, t', result, result', states⟩ :=
    first.ends matched
  · simp only [Bind.bind, EStateM.bind, result, result']
    exact second a a' related t t' states
  · simp only [Bind.bind, EStateM.bind, result, result', true_and]
    exact states

theorem map {f : α → β} {f' : α' → β'} (parallel : Parallel M p p' Q)
    (mapped : ∀ a a', Q a a' → R (f a) (f' a')) : Parallel M (f <$> p) (f' <$> p') R :=
  parallel.bind fun a a' related => pure (mapped a a' related)

end Parallel

/-! ## Single tokens -/

theorem atEnd_parallel : Parallel M atEnd atEnd Eq := by
  intro s s' matched
  obtain ⟨ended, ended'⟩ | ⟨t, rest, t', rest', ahead, ahead', -⟩ := matched.cases
  · simp [atEnd, ended, ended', matched]
  · simp [atEnd, ahead, ahead', matched]

theorem next_parallel (kind : TokenKind) : Parallel M (next kind) (next kind) Eq := by
  intro s s' matched
  obtain ⟨ended, ended'⟩ | ⟨t, rest, t', rest', ahead, ahead', first, -⟩ := matched.cases
  · simp [next, ended, ended', matched]
  · have kinds : t'.kind = t.kind := M.kind (M.token _ _ first)
    simp [next, ahead, ahead', matched, kinds]

theorem accept?_parallel (kinds : List TokenKind) :
    Parallel M (accept? kinds) (accept? kinds) (Option.Rel M.occurrences) := by
  intro s s' matched
  obtain ⟨ended, ended'⟩ | ⟨t, rest, t', rest', ahead, ahead', first, others⟩ := matched.cases
  · simp only [accept?, ended, ended']
    exact ⟨matched, .none⟩
  · have same : t'.kind = t.kind := M.kind (M.token _ _ first)
    simp only [accept?, ahead, ahead', same]
    by_cases accepted : kinds.contains t.kind = true
    · simp only [accepted, if_true]
      exact ⟨others, .some first⟩
    · simp only [accepted]
      exact ⟨matched, .none⟩

theorem accept_parallel (kind : TokenKind) : Parallel M (accept kind) (accept kind) Eq := by
  apply (accept?_parallel [kind]).bind
  intro found found' related
  cases related <;> exact .pure rfl

theorem note_parallel (fault : ParseFault) {place place' : Occurrence}
    (places : M.tokens place.token place'.token) :
    Parallel M (note fault place) (note fault place') Eq := by
  intro s s' matched
  refine ⟨{ matched with errors := ?_ }, rfl⟩
  simp only [Array.toList_push]
  exact List.rel_append matched.errors (.cons ⟨rfl, places⟩ .nil)

theorem noteHere_parallel (fault : ParseFault) : Parallel M (noteHere fault) (noteHere fault) Eq :=
  fun s s' matched => note_parallel fault matched.current s s' matched

theorem fail_parallel (fault : ParseFault) {Q : α → α' → Prop} :
    Parallel M (fail fault) (fail fault) Q :=
  (noteHere_parallel fault).bind fun _ _ _ => .throw .fault

theorem expect_parallel (kind : TokenKind) (fault : ParseFault) :
    Parallel M (expect kind fault) (expect kind fault) M.occurrences := by
  apply (accept?_parallel [kind]).bind
  intro found found' related
  cases related with
  | none => exact fail_parallel fault
  | some related => exact .pure related

theorem skip_parallel (kind : TokenKind) (fault : ParseFault) :
    Parallel M (skip kind fault) (skip kind fault) Eq :=
  (expect_parallel kind fault).bind fun _ _ _ => .pure rfl

/-! ## Optional parts and repetition -/

section Parts

variable {p : Parser α} {p' : Parser α'} {Q : α → α' → Prop}

/-- A part that is left out if a token of the given kind is next. -/
theorem Parallel.unless {f : α → Parser β} {f' : α' → Parser β'} {R : β → β' → Prop}
    (kind : TokenKind) {absent : α} {absent' : α'} (nothing : Q absent absent')
    (part : Parallel M p p' Q) (rest : ∀ a a', Q a a' → Parallel M (f a) (f' a') R) :
    Parallel M (next kind >>= fun found => if found = true then Pure.pure absent >>= f else p >>= f)
      (next kind >>= fun found => if found = true then Pure.pure absent' >>= f' else p' >>= f') R := by
  apply (next_parallel kind).bind
  rintro found _ rfl
  cases found with
  | true => exact rest absent absent' nothing
  | false => exact part.bind rest

/-- A part that is there if a token of the given kind comes first. -/
theorem Parallel.optional {f : Option α → Parser β} {f' : Option α' → Parser β'}
    {R : β → β' → Prop} (kind : TokenKind) (part : Parallel M p p' Q)
    (rest : ∀ a a', Option.Rel Q a a' → Parallel M (f a) (f' a') R) :
    Parallel M
      (accept kind >>= fun found => if found = true then some <$> p >>= f else Pure.pure none >>= f)
      (accept kind >>= fun found =>
        if found = true then some <$> p' >>= f' else Pure.pure none >>= f') R := by
  apply (accept_parallel kind).bind
  rintro found _ rfl
  cases found with
  | true => exact (part.map fun a a' related => Option.Rel.some related).bind rest
  | false => exact rest none none .none

variable {step : Nat → Parser (Option α)} {step' : Nat → Parser (Option α')}

theorem manyFrom_parallel
    (each : ∀ count, Parallel M (step count) (step' count) (Option.Rel Q)) (fuel : Nat) :
    ∀ (count : Nat) (found : List α) (found' : List α'), List.Forall₂ Q found found' →
      Parallel M (manyFrom step fuel count found) (manyFrom step' fuel count found')
        (List.Forall₂ Q) := by
  induction fuel with
  | zero =>
    intro count found found' related
    exact .pure (List.rel_reverse related)
  | succ fuel inductionHypothesis =>
    intro count found found' related
    apply (each count).bind
    intro a a' result
    cases result with
    | none => exact .pure (List.rel_reverse related)
    | some result => exact inductionHypothesis (count + 1) _ _ (.cons result related)

theorem many_parallel (each : ∀ count, Parallel M (step count) (step' count) (Option.Rel Q)) :
    Parallel M (many step) (many step') (List.Forall₂ Q) := by
  intro s s' matched
  simp only [many, matched.remaining]
  exact manyFrom_parallel each _ 0 [] [] .nil s s' matched

/-- An item after a comma, if there is one. -/
theorem separatedStep_parallel (tooMany : ParseFault) (item : Parallel M p p' Q) (count : Nat) :
    Parallel M
      (do
        if ← accept .comma then
          if maxArguments ≤ count + 1 then noteHere tooMany
          return some (← p)
        else return none)
      (do
        if ← accept .comma then
          if maxArguments ≤ count + 1 then noteHere tooMany
          return some (← p')
        else return none) (Option.Rel Q) := by
  have another : Parallel M (do return some (← p)) (do return some (← p')) (Option.Rel Q) :=
    item.map fun a a' related => .some related
  apply (accept_parallel .comma).bind
  rintro comma _ rfl
  cases comma with
  | false => exact .pure .none
  | true =>
    by_cases full : maxArguments ≤ count + 1
    · simp only [if_true, full]
      exact (noteHere_parallel tooMany).bind fun _ _ _ => another
    · simp only [if_true, full, if_false]
      exact another

theorem separated_parallel (tooMany : ParseFault) (item : Parallel M p p' Q) :
    Parallel M (separated tooMany p) (separated tooMany p') (List.Forall₂ Q) := by
  have others : Parallel M _ _ (List.Forall₂ Q) := many_parallel (separatedStep_parallel tooMany item)
  apply item.bind
  intro first first' firsts
  exact others.bind fun rest rest' related => .pure (List.Forall₂.cons firsts related)

end Parts

/-! ## Recovery -/

/-- On both sides the same number of tokens lies before the boundary. -/
theorem boundary_matched (previous : TokenKind) (position position' : Nat) (ahead ahead' : List Token)
    (matched : List.Forall₂ M.occurrences (numbered position ahead) (numbered position' ahead')) :
    List.Forall₂ M.occurrences
        (numbered (boundary previous ahead position).2 (boundary previous ahead position).1)
        (numbered (boundary previous ahead' position').2 (boundary previous ahead' position').1) ∧
      ∃ skipped, (boundary previous ahead position).2 = position + skipped ∧
        (boundary previous ahead' position').2 = position' + skipped := by
  induction ahead generalizing previous position position' ahead' with
  | nil =>
    cases ahead' with
    | nil => exact ⟨.nil, 0, rfl, rfl⟩
    | cons => cases matched
  | cons t rest inductionHypothesis =>
    cases ahead' with
    | nil => cases matched
    | cons t' rest' =>
      cases matched with
      | cons first others =>
        have same : t'.kind = t.kind := M.kind (M.token _ _ first)
        -- Whether a token is a boundary depends on its kind and on that of the token before.
        simp only [boundary, same]
        split
        · exact ⟨.cons first others, 0, rfl, rfl⟩
        · obtain ⟨ahead, skipped, here, there⟩ := inductionHypothesis t.kind _ _ rest' others
          exact ⟨ahead, skipped + 1, by omega, by omega⟩

theorem State.Matched.synchronize {s s' : State} (matched : s.Matched M s') :
    s.synchronize.Matched M s'.synchronize := by
  obtain ⟨ended, ended'⟩ | ⟨t, rest, t', rest', ahead, ahead', first, others⟩ := matched.cases
  · simpa only [State.synchronize, ended, ended'] using matched
  · have same : t'.kind = t.kind := M.kind (M.token _ _ first)
    have remaining := matched.remaining
    obtain ⟨upcoming, skipped, here, there⟩ :=
      boundary_matched t.kind _ _ rest rest' others.upcoming
    simp only [State.synchronize, ahead, ahead', same]
    refine ⟨upcoming, matched.last, matched.errors, ?_⟩
    simp only [State.remaining, here, there] at remaining ⊢
    omega

theorem recovering_parallel {p : Parser α} {p' : Parser α'} {Q : α → α' → Prop}
    (parallel : Parallel M p p' Q) :
    Parallel M (recovering p) (recovering p') (Option.Rel Q) := by
  intro s s' matched
  simp only [recovering]
  obtain ⟨a, t, a', t', result, result', states, related⟩ | ⟨halt, t, t', result, result', states⟩ :=
    parallel.ends matched
  · rw [result, result']
    exact ⟨states, .some related⟩
  · rw [result, result']
    cases halt with
    | fault => exact ⟨states.synchronize, .none⟩
    | tooDeep => exact ⟨rfl, states⟩

/-! ## Expressions -/

section Expressions

theorem chain_parallel {operand : Parser Expr}
    (operands : Parallel M operand operand (Expr.Matched M)) (tiers : List Layer)
    (builds : ∀ layer ∈ tiers, ∀ l l' o o' r r', l.Matched M l' → M.occurrences o o' →
      r.Matched M r' → (layer.node l o r).Matched M (layer.node l' o' r')) :
    Parallel M (chain operand tiers) (chain operand tiers) (Expr.Matched M) := by
  induction tiers with
  | nil => exact operands
  | cons layer tighter inductionHypothesis =>
    obtain ⟨buildsHere, buildTighter⟩ := List.forall_mem_cons.1 builds
    have tight := inductionHypothesis buildTighter
    apply tight.bind
    intro first first' firsts
    let Q : Occurrence × Expr → Occurrence × Expr → Prop :=
      fun x x' => M.occurrences x.1 x'.1 ∧ x.2.Matched M x'.2
    refine (many_parallel (Q := Q) fun _ => ?_).bind ?_
    · apply (accept?_parallel layer.operators).bind
      intro found found' related
      cases related with
      | none => exact .pure .none
      | some operator =>
        exact tight.bind fun right right' rights => .pure (.some ⟨operator, rights⟩)
    · intro others others' related
      apply Parallel.pure
      -- the operands join on from the left
      induction related generalizing first first' with
      | nil => exact firsts
      | cons other _ joined => exact joined _ _ (buildsHere _ _ _ _ _ _ firsts other.1 other.2)

/-- Suffixes that put matching expressions into matching ones. -/
inductive Suffix.Matched (M : Matching) : Suffix → Suffix → Prop
  | call {paren paren' : Occurrence} {arguments arguments' : List Expr} :
      M.occurrences paren paren' → List.Forall₂ (Expr.Matched M) arguments arguments' →
      Matched M (.call paren arguments) (.call paren' arguments')
  | get {property property' : Occurrence} : M.occurrences property property' →
      Matched M (.get property) (.get property')

theorem Suffix.Matched.apply {x x' : Suffix} (matched : x.Matched M x') {e e' : Expr}
    (inner : e.Matched M e') : (Suffix.apply e x).Matched M (Suffix.apply e' x') := by
  cases matched with
  | call paren arguments => exact .call inner paren arguments
  | get property => exact .get inner property

variable {expression : Parser Expr}
  (expressions : Parallel M expression expression (Expr.Matched M))
include expressions

theorem arguments_parallel :
    Parallel M (arguments expression) (arguments expression) (Suffix.Matched M) := by
  apply Parallel.unless .rightParen .nil (separated_parallel .tooManyArguments expressions)
  intro found found' related
  apply (expect_parallel .rightParen .noArgumentsEnd).bind
  intro paren paren' parens
  exact .pure (.call parens related)

theorem suffix_parallel :
    Parallel M (suffix expression) (suffix expression) (Option.Rel (Suffix.Matched M)) := by
  apply (accept_parallel .leftParen).bind
  rintro paren _ rfl
  cases paren with
  | true => exact (arguments_parallel expressions).map fun _ _ related => .some related
  | false =>
    apply (accept_parallel .dot).bind
    rintro dot _ rfl
    cases dot with
    | true =>
      apply (expect_parallel .identifier .noPropertyName).bind
      exact fun _ _ property => .pure (.some (.get property))
    | false => exact .pure .none

theorem primary_parallel :
    Parallel M (primary expression) (primary expression) (Expr.Matched M) := by
  apply (accept?_parallel operandStarts).bind
  intro found found' related
  cases related with
  | none => exact fail_parallel .noExpression
  | @some first first' firsts =>
    have token := M.token _ _ firsts
    simp only [M.kind token, M.literal token]
    split
    · exact .pure (.literal _)
    · exact .pure (.literal _)
    · exact .pure (.literal _)
    · apply (skip_parallel .dot .noSuperDot).bind
      intro _ _ _
      apply (expect_parallel .identifier .noSuperMethod).bind
      exact fun _ _ method => .pure (.super firsts method)
    · exact .pure (.this firsts)
    · exact .pure (.name firsts)
    · apply expressions.bind
      intro inner inner' inners
      apply (skip_parallel .rightParen .noGroupingEnd).bind
      exact fun _ _ _ => .pure (.grouping inners)
    · exact .pure (.literal _)

theorem operand_parallel :
    Parallel M (operand expression) (operand expression) (Expr.Matched M) := by
  apply (primary_parallel expressions).bind
  intro first first' firsts
  apply (many_parallel fun _ => suffix_parallel expressions).bind
  intro suffixes suffixes' related
  apply Parallel.pure
  induction related generalizing first first' with
  | nil => exact firsts
  | cons suffix _ applied => exact applied _ _ (suffix.apply firsts)

end Expressions

theorem assignment_parallel {equals equals' : Occurrence} {target target' value value' : Expr}
    (places : M.tokens equals.token equals'.token) (targets : target.Matched M target')
    (values : value.Matched M value') :
    Parallel M (assignment equals target value) (assignment equals' target' value')
      (Expr.Matched M) := by
  have dropped : Parallel M (do note .invalidTarget equals; return target)
      (do note .invalidTarget equals'; return target') (Expr.Matched M) :=
    (note_parallel .invalidTarget places).bind fun _ _ _ => .pure targets
  cases targets with
  | name names => exact .pure (.assign names values)
  | get object property => exact .pure (.set object property values)
  | _ => exact dropped

theorem layers_build (layer : Layer) (member : layer ∈ layers) (l l' : Expr) (o o' : Occurrence)
    (r r' : Expr) (left : l.Matched M l') (operator : M.occurrences o o') (right : r.Matched M r') :
    (layer.node l o r).Matched M (layer.node l' o' r') := by
  simp only [layers, List.mem_cons, List.not_mem_nil, or_false] at member
  rcases member with rfl | rfl | rfl | rfl | rfl | rfl
  · exact .logical left operator right
  · exact .logical left operator right
  all_goals exact .binary left operator right

mutual

theorem expression_parallel :
    ∀ depth, Parallel M (expression depth) (expression depth) (Expr.Matched M)
  | 0 => .throw .tooDeep
  | depth + 1 => by
    rw [expression]
    apply (chain_parallel (unary_parallel depth) layers layers_build).bind
    intro target target' targets
    apply (accept?_parallel [.equal]).bind
    intro equals equals' related
    cases related with
    | none => exact .pure targets
    | some places =>
      apply (expression_parallel depth).bind
      exact fun _ _ values => assignment_parallel (M.token _ _ places) targets values

theorem unary_parallel : ∀ depth, Parallel M (unary depth) (unary depth) (Expr.Matched M)
  | 0 => .throw .tooDeep
  | depth + 1 => by
    rw [unary]
    apply (accept?_parallel [.bang, .minus]).bind
    intro operator operator' related
    cases related with
    | none => exact operand_parallel (expression_parallel depth)
    | some operators =>
      exact (unary_parallel depth).map fun _ _ operands => .unary operators operands

end

/-! ## Statements -/

/-- Equally many declarations are read, and the same ones have a fault. -/
theorem filterMap_matched {found found' : List (Option Stmt)}
    (related : List.Forall₂ (Option.Rel (Stmt.Matched M)) found found') :
    List.Forall₂ (Stmt.Matched M) (found.filterMap id) (found'.filterMap id) := by
  induction related with
  | nil => exact .nil
  | cons first _ inductionHypothesis =>
    cases first with
    | none => exact inductionHypothesis
    | some first => exact .cons first inductionHypothesis

/-- A step of a loop that goes on up to a closing brace, or to the end. -/
theorem untilBrace_parallel {p : Parser α} {p' : Parser α'} {Q : α → α' → Prop}
    (parallel : Parallel M p p' Q) :
    Parallel M
      (do if (← next .rightBrace) || (← atEnd) then return none else return some (← p))
      (do if (← next .rightBrace) || (← atEnd) then return none else return some (← p'))
      (Option.Rel Q) := by
  apply (next_parallel .rightBrace).bind
  rintro brace _ rfl
  apply atEnd_parallel.bind
  rintro ended _ rfl
  by_cases closed : (brace || ended) = true
  · simp only [closed, if_true]
    exact .pure .none
  · simp only [closed]
    exact parallel.map fun _ _ related => .some related

section Declarations

variable {declaration : Parser (Option Stmt)}
  (declarations : Parallel M declaration declaration (Option.Rel (Stmt.Matched M)))
include declarations

theorem block_parallel :
    Parallel M (block declaration) (block declaration) (List.Forall₂ (Stmt.Matched M)) := by
  apply (many_parallel fun _ => untilBrace_parallel declarations).bind
  intro found found' related
  apply (skip_parallel .rightBrace .noBlockEnd).bind
  exact fun _ _ _ => .pure (filterMap_matched related)

theorem function_parallel (form : FunctionForm) :
    Parallel M (function form declaration) (function form declaration) (Function.Matched M) := by
  apply (expect_parallel .identifier _).bind
  intro name name' names
  apply (skip_parallel .leftParen _).bind
  intro _ _ _
  apply Parallel.unless .rightParen .nil
    (separated_parallel .tooManyParameters (expect_parallel .identifier .noParameterName))
  intro parameters parameters' related
  apply (skip_parallel .rightParen .noParametersEnd).bind
  intro _ _ _
  apply (skip_parallel .leftBrace _).bind
  intro _ _ _
  apply (block_parallel declarations).bind
  intro body body' bodies
  have tokens := List.forall₂_map_left_iff.2 (List.forall₂_map_right_iff.2
    (related.imp fun o o' places => M.token o o' places))
  exact .pure (.mk (M.token _ _ names) tokens bodies)

omit declarations in
theorem superclass_parallel :
    Parallel M superclass superclass (Option.Rel M.occurrences) := by
  apply (accept_parallel .less).bind
  rintro less _ rfl
  cases less with
  | true => exact (expect_parallel .identifier .noSuperclassName).map fun _ _ places => .some places
  | false => exact .pure .none

theorem classDeclaration_parallel :
    Parallel M (classDeclaration declaration) (classDeclaration declaration) (Stmt.Matched M) := by
  apply (expect_parallel .identifier .noClassName).bind
  intro name name' names
  apply superclass_parallel.bind
  intro parent parent' parents
  apply (skip_parallel .leftBrace .noClassBody).bind
  intro _ _ _
  apply (many_parallel fun _ => untilBrace_parallel (function_parallel declarations .method)).bind
  intro methods methods' related
  apply (skip_parallel .rightBrace .noClassEnd).bind
  exact fun _ _ _ => .pure (.class names parents related)

end Declarations

section Simple

variable {expression : Parser Expr}
  (expressions : Parallel M expression expression (Expr.Matched M))
include expressions

theorem varDeclaration_parallel :
    Parallel M (varDeclaration expression) (varDeclaration expression) (Stmt.Matched M) := by
  apply (expect_parallel .identifier .noVariableName).bind
  intro name name' names
  apply Parallel.optional .equal expressions
  intro initializer initializer' related
  apply (skip_parallel .semicolon .noVariableEnd).bind
  exact fun _ _ _ => .pure (.var (M.token _ _ names) related)

theorem expressionStatement_parallel :
    Parallel M (expressionStatement expression) (expressionStatement expression)
      (Stmt.Matched M) := by
  apply expressions.bind
  intro value value' values
  apply (skip_parallel .semicolon .noExpressionEnd).bind
  exact fun _ _ _ => .pure (.expression values)

theorem printStatement_parallel :
    Parallel M (printStatement expression) (printStatement expression) (Stmt.Matched M) := by
  apply expressions.bind
  intro value value' values
  apply (skip_parallel .semicolon .noPrintEnd).bind
  exact fun _ _ _ => .pure (.print values)

theorem returnStatement_parallel {keyword keyword' : Token} (keywords : M.tokens keyword keyword') :
    Parallel M (returnStatement keyword expression) (returnStatement keyword' expression)
      (Stmt.Matched M) := by
  have optional : Parallel M (some <$> expression) (some <$> expression)
      (Option.Rel (Expr.Matched M)) := expressions.map fun _ _ related => .some related
  apply Parallel.unless .semicolon .none optional
  intro value value' related
  apply (skip_parallel .semicolon .noReturnEnd).bind
  exact fun _ _ _ => .pure (.return keywords related)

variable {statement : Parser Stmt}
  (statements : Parallel M statement statement (Stmt.Matched M))
include statements

theorem whileStatement_parallel :
    Parallel M (whileStatement expression statement) (whileStatement expression statement)
      (Stmt.Matched M) := by
  apply (skip_parallel .leftParen .noWhileCondition).bind
  intro _ _ _
  apply expressions.bind
  intro condition condition' conditions
  apply (skip_parallel .rightParen .noWhileConditionEnd).bind
  intro _ _ _
  exact statements.map fun _ _ bodies => .while conditions bodies

theorem ifStatement_parallel :
    Parallel M (ifStatement expression statement) (ifStatement expression statement)
      (Stmt.Matched M) := by
  apply (skip_parallel .leftParen .noIfCondition).bind
  intro _ _ _
  apply expressions.bind
  intro condition condition' conditions
  apply (skip_parallel .rightParen .noIfConditionEnd).bind
  intro _ _ _
  apply statements.bind
  intro thenBranch thenBranch' thens
  apply Parallel.optional .kwElse statements
  exact fun _ _ elses => .pure (.ite conditions thens elses)

omit expressions statements

theorem forLoop_matched {initializer initializer' : Option Stmt}
    {condition condition' increment increment' : Option Expr} {body body' : Stmt}
    (initializers : Option.Rel (Stmt.Matched M) initializer initializer')
    (conditions : Option.Rel (Expr.Matched M) condition condition')
    (increments : Option.Rel (Expr.Matched M) increment increment')
    (bodies : body.Matched M body') :
    (forLoop initializer condition increment body).Matched M
      (forLoop initializer' condition' increment' body') := by
  have test : (condition.getD (.literal (.bool true))).Matched M
      (condition'.getD (.literal (.bool true))) := by
    cases conditions with
    | none => exact .literal _
    | some related => exact related
  cases increments with
  | none =>
    cases initializers with
    | none => exact .while test bodies
    | some first => exact .block (.cons first (.cons (.while test bodies) .nil))
  | some increment =>
    have step := Stmt.Matched.block (.cons bodies (.cons (.expression increment) .nil))
    cases initializers with
    | none => exact .while test step
    | some first => exact .block (.cons first (.cons (.while test step) .nil))

include expressions

theorem forInitializer_parallel :
    Parallel M (forInitializer expression) (forInitializer expression)
      (Option.Rel (Stmt.Matched M)) := by
  apply (accept_parallel .semicolon).bind
  rintro absent _ rfl
  cases absent with
  | true => exact .pure .none
  | false =>
    apply (accept_parallel .kwVar).bind
    rintro declares _ rfl
    cases declares with
    | true => exact (varDeclaration_parallel expressions).map fun _ _ related => .some related
    | false => exact (expressionStatement_parallel expressions).map fun _ _ related => .some related

include statements

theorem forStatement_parallel :
    Parallel M (forStatement expression statement) (forStatement expression statement)
      (Stmt.Matched M) := by
  have optional : Parallel M (some <$> expression) (some <$> expression)
      (Option.Rel (Expr.Matched M)) := expressions.map fun _ _ related => .some related
  apply (skip_parallel .leftParen .noForClauses).bind
  intro _ _ _
  apply (forInitializer_parallel expressions).bind
  intro initializer initializer' initializers
  apply Parallel.unless .semicolon .none optional
  intro condition condition' conditions
  apply (skip_parallel .semicolon .noForConditionEnd).bind
  intro _ _ _
  apply Parallel.unless .rightParen .none optional
  intro increment increment' increments
  apply (skip_parallel .rightParen .noForClausesEnd).bind
  intro _ _ _
  exact statements.map fun _ _ bodies => forLoop_matched initializers conditions increments bodies

end Simple

/-! ## Programs -/

mutual

theorem declaration_parallel {expression : Parser Expr}
    (expressions : Parallel M expression expression (Expr.Matched M)) :
    ∀ depth, Parallel M (declaration expression depth) (declaration expression depth)
      (Option.Rel (Stmt.Matched M))
  | 0 => .throw .tooDeep
  | depth + 1 => by
    rw [declaration]
    apply recovering_parallel
    apply (accept?_parallel declarationStarts).bind
    intro start start' related
    cases related with
    | none => exact statement_parallel expressions depth
    | some places =>
      have declarations := declaration_parallel expressions depth
      simp only [M.kind (M.token _ _ places)]
      split
      · exact classDeclaration_parallel declarations
      · exact (function_parallel declarations .function).map fun _ _ functions => .function functions
      · exact varDeclaration_parallel expressions

theorem statement_parallel {expression : Parser Expr}
    (expressions : Parallel M expression expression (Expr.Matched M)) :
    ∀ depth, Parallel M (statement expression depth) (statement expression depth) (Stmt.Matched M)
  | 0 => .throw .tooDeep
  | depth + 1 => by
    rw [statement]
    apply (accept?_parallel statementStarts).bind
    intro start start' related
    cases related with
    | none => exact expressionStatement_parallel expressions
    | some places =>
      have inner := statement_parallel expressions depth
      simp only [M.kind (M.token _ _ places)]
      split
      · exact forStatement_parallel expressions inner
      · exact ifStatement_parallel expressions inner
      · exact printStatement_parallel expressions
      · exact returnStatement_parallel expressions (M.token _ _ places)
      · exact whileStatement_parallel expressions inner
      · exact (block_parallel (declaration_parallel expressions depth)).map fun _ _ bodies =>
          .block bodies

end

theorem program_parallel (depth : Nat) :
    Parallel M (program depth) (program depth) (List.Forall₂ (Stmt.Matched M)) := by
  have step : ∀ _ : Nat, Parallel M
      (do
        if ← atEnd then return none
        else return some (← declaration (expression depth) depth))
      (do
        if ← atEnd then return none
        else return some (← declaration (expression depth) depth))
      (Option.Rel (Option.Rel (Stmt.Matched M))) := by
    intro _
    apply atEnd_parallel.bind
    rintro ended _ rfl
    cases ended with
    | true => exact .pure .none
    | false =>
      exact (declaration_parallel (expression_parallel depth) depth).map fun _ _ related =>
        .some related
  apply (many_parallel step).bind
  exact fun _ _ related => .pure (filterMap_matched related)

end Grammar

/-! ## Token lists -/

theorem Grammar.numbered_matched {start start' : Nat} {ts ts' : List Token}
    (matched : List.Forall₂ M.tokens ts ts')
    (counted : ∀ i t t', ts[i]? = some t → M.tokens t t' →
      M.occurrences ⟨start + i, t⟩ ⟨start' + i, t'⟩) :
    List.Forall₂ M.occurrences (numbered start ts) (numbered start' ts') := by
  induction matched generalizing start start' with
  | nil => exact .nil
  | cons first _ inductionHypothesis =>
    refine .cons (counted 0 _ _ rfl first) (inductionHypothesis ?_)
    intro i t t' here related
    have next := counted (i + 1) t t' here related
    simpa only [Nat.add_assoc, Nat.add_comm 1] using next

/-- Matching lists end in the same place, and with matching tokens. -/
theorem span_matched {ts ts' : List Token} (matched : List.Forall₂ M.tokens ts ts') :
    List.Forall₂ M.tokens (ts.takeWhile (·.kind != .endOfInput))
        (ts'.takeWhile (·.kind != .endOfInput)) ∧
      List.Forall₂ M.tokens (ts.dropWhile (·.kind != .endOfInput))
        (ts'.dropWhile (·.kind != .endOfInput)) := by
  induction matched with
  | nil => exact ⟨.nil, .nil⟩
  | cons first rest inductionHypothesis =>
    simp only [List.takeWhile_cons, List.dropWhile_cons, M.kind first]
    split
    · exact ⟨.cons first inductionHypothesis.1, inductionHypothesis.2⟩
    · exact ⟨.nil, .cons first rest⟩

theorem Grammar.State.initial_matched {start start' : Nat} {ts ts' : List Token}
    (matched : List.Forall₂ M.tokens ts ts') (ended : ∃ t ∈ ts, t.kind = .endOfInput)
    (counted : ∀ i t t', (ts.takeWhile (·.kind != .endOfInput))[i]? = some t → M.tokens t t' →
      M.occurrences ⟨start + i, t⟩ ⟨start' + i, t'⟩) :
    (State.initial start ts).Matched M (.initial start' ts') := by
  obtain ⟨ahead, rest⟩ := span_matched matched
  have remaining : ∀ start ts, (State.initial start ts).remaining =
      (ts.takeWhile (·.kind != .endOfInput)).length := by
    intro start ts
    simp [State.initial, State.remaining, List.span_eq_takeWhile_dropWhile]
  refine ⟨?_, ?_, .nil, by rw [remaining, remaining, ahead.length_eq]⟩
  · simp only [State.upcoming, State.initial, List.span_eq_takeWhile_dropWhile]
    exact numbered_matched ahead counted
  · simp only [State.initial, List.span_eq_takeWhile_dropWhile]
    -- What is left of both lists starts with the end-of-input tokens, which match.
    generalize others : ts.dropWhile (·.kind != .endOfInput) = us,
      ts'.dropWhile (·.kind != .endOfInput) = us' at rest
    cases rest with
    | nil =>
      obtain ⟨t, member, kind⟩ := ended
      have notEnd := List.dropWhile_eq_nil_iff.1 others t member
      simp [kind] at notEnd
    | cons first _ => exact first

/-- Two parses with matching trees and the same faults at matching places. -/
structure Parse.Matched (M : Matching) (p p' : Parse) : Prop where
  statements : List.Forall₂ (Stmt.Matched M) p.statements p'.statements
  errors : List.Forall₂ (ParseError.Matched M) p.errors p'.errors

theorem parse?_matched {start start' : Nat} {tokens tokens' : List Token}
    (initial : (Grammar.State.initial start tokens).Matched M (.initial start' tokens'))
    (depth : Nat) :
    Option.Rel (Parse.Matched M) (parse? depth start tokens) (parse? depth start' tokens') := by
  simp only [parse?]
  obtain ⟨_, _, _, _, result, result', states, related⟩ | ⟨_, _, _, result, result', -⟩ :=
    (Grammar.program_parallel depth).ends initial
  · rw [result, result']
    exact .some ⟨related, states.errors⟩
  · rw [result, result']
    exact .none

/-- A parse that matches one without errors has none either. -/
theorem Parse.faultless_matched {program : List Stmt} {found : Option Parse}
    (parses : Option.Rel (Parse.Matched M) (some ⟨program, []⟩) found) :
    ∃ program', found = some ⟨program', []⟩ ∧
      List.Forall₂ (Stmt.Matched M) program program' := by
  cases parses with
  | @some _ parsed matched =>
    obtain ⟨program', errors⟩ := parsed
    obtain ⟨trees, faults⟩ := matched
    cases faults
    exact ⟨program', rfl, trees⟩

end Lox
