import Lox.Proofs.Grammar.Placement
import Lox.Proofs.Grammar.Reading
import Mathlib.Data.List.TakeDrop

/-!
# Trees that are read

Every mention in a tree that a parser yields is a token that it read there, and no two mentions are the
same token. This holds of all token lists, and whatever faults are found: a part that recovery drops has
no subjects.
-/

namespace Lox

namespace Grammar

variable {rule : Token → Prop}

/-! ## Expressions -/

abbrev ReadsExpr (rule : Token → Prop) (p : Parser Expr) : Prop := Reads rule p Expr.subjects

/-- The node of a layer has the subjects of its operands in order. -/
def Layer.Joins (layer : Layer) : Prop :=
  ∀ left operator right,
    (layer.node left operator right).subjects = left.subjects ++ right.subjects

theorem layers_join : ∀ layer ∈ layers, layer.Joins := by
  simp [layers, Layer.Joins, Expr.subjects]

theorem Layer.Joins.foldl {layer : Layer} (joins : layer.Joins) (others : List (Occurrence × Expr))
    (first : Expr) :
    (others.foldl (fun left (operator, right) => layer.node left operator right) first).subjects =
      first.subjects ++ others.flatMap fun other => other.2.subjects := by
  induction others generalizing first with
  | nil => simp
  | cons other rest inductionHypothesis => simp [inductionHypothesis, joins first]

theorem chain_reads {operand : Parser Expr} (reads : ReadsExpr rule operand) :
    ∀ tiers : List Layer, (∀ layer ∈ tiers, layer.Joins) → ReadsExpr rule (chain operand tiers) := by
  intro tiers join
  induction tiers with
  | nil => exact reads
  | cons layer tighter inductionHypothesis =>
    obtain ⟨joinsHere, joinTighter⟩ := List.forall_mem_cons.1 join
    have tight := inductionHypothesis joinTighter
    intro s sound
    refine (Progress.initial sound).bind tight fun first s' progress => ?_
    refine progress.bind (many_reads fun count t sound => ?_ :
        Reads rule _ fun others => others.flatMap fun other => other.2.subjects)
      fun others s'' progress => progress.yield (by simp [joinsHere.foldl])
    refine (Progress.initial sound).bind (accept?_reads layer.operators)
      fun operator t' progress => ?_
    cases operator with
    | none => exact progress.yield (by simp)
    | some operator =>
      exact progress.bind tight fun right t'' progress => progress.yield (by simp)

def Suffix.subjects : Suffix → List Subject
  | call _ arguments => Expr.allSubjects arguments
  | get _ => []

theorem Suffix.subjects_foldl (suffixes : List Suffix) (first : Expr) :
    (suffixes.foldl Suffix.apply first).subjects =
      first.subjects ++ suffixes.flatMap Suffix.subjects := by
  induction suffixes generalizing first with
  | nil => simp
  | cons suffix rest inductionHypothesis =>
    cases suffix <;> simp [inductionHypothesis, Suffix.apply, Suffix.subjects, Expr.subjects]

section Operands

variable {expression : Parser Expr} (reads : ReadsExpr rule expression)
include reads

theorem arguments_reads : Reads rule (arguments expression) Suffix.subjects := by
  intro s sound
  refine (Progress.initial sound).unless .rightParen rfl
    (separated_reads reads .tooManyArguments) fun found s' progress => ?_
  exact progress.bind (expectSilent_reads .rightParen .noArgumentsEnd) fun paren s'' progress =>
    progress.yield (by simp [Suffix.subjects, Expr.allSubjects_eq])

theorem suffix_reads :
    Reads rule (suffix expression) fun found => found.toList.flatMap Suffix.subjects := by
  intro s sound
  refine (Progress.initial sound).bind (accept_reads .leftParen) fun parenthesis s' progress => ?_
  cases parenthesis with
  | true =>
    exact progress.bind (arguments_reads reads) fun call s'' progress => progress.yield (by simp)
  | false =>
    refine progress.bind (accept_reads .dot) fun dot s'' progress => ?_
    cases dot with
    | true =>
      exact progress.bind (expectSilent_reads .identifier .noPropertyName) fun name t progress =>
        progress.yield (by simp [Suffix.subjects])
    | false => exact progress.yield (by simp)

theorem primary_reads : ReadsExpr rule (primary expression) := by
  intro s sound
  refine (accept?_yields sound operandStarts).bind fun found s' leads read => ?_
  cases found with
  | none => exact fail_yields leads.sound
  | some first =>
    -- Three forms mention their first token, the others keep only its kind or its value.
    have mention : ∀ form, (Subject.mention form first).Follows rule →
        Progress rule s.position s' [.mention form first] := fun form follows =>
      ⟨leads.sound, leads.forward, read.taken follows (by rintro m ⟨⟩; rfl)⟩
    have silent : Progress rule s.position s' [] := ⟨leads.sound, leads.forward, .nil⟩
    dsimp only
    split
    · exact silent.yield (.refl _)
    · exact silent.yield (.refl _)
    · exact silent.yield (.refl _)
    · next kind =>
      refine (mention .super ⟨kind, read.lawful⟩).bind (skip_reads .dot .noSuperDot)
        fun _ s'' progress => ?_
      exact progress.bind (expectSilent_reads .identifier .noSuperMethod) fun method t progress =>
        progress.yield (by simp [Expr.subjects])
    · next kind => exact (mention .this ⟨kind, read.lawful⟩).yield (.refl _)
    · next kind => exact (mention .variable ⟨kind, read.lawful⟩).yield (.refl _)
    · refine silent.bind reads fun inner s'' progress => ?_
      exact progress.bind (skip_reads .rightParen .noGroupingEnd) fun _ t progress =>
        progress.yield (by simp [Expr.subjects])
    · exact silent.yield (.refl _)

theorem operand_reads : ReadsExpr rule (operand expression) := by
  intro s sound
  refine (Progress.initial sound).bind (primary_reads reads) fun first s' progress => ?_
  exact progress.bind (many_reads fun _ => suffix_reads reads) fun suffixes s'' progress =>
    progress.yield (by simp [Suffix.subjects_foldl])

end Operands

theorem assignment_yields {start : Nat} {s : State} {target value : Expr}
    (progress : Progress rule start s (target.subjects ++ value.subjects)) (equals : Occurrence) :
    Yields rule (assignment equals target value) s fun e s' =>
      TakenBetween rule start s'.position e.subjects := by
  have dropped : Yields rule (do note .invalidTarget equals; return target) s fun e s' =>
      TakenBetween rule start s'.position e.subjects :=
    progress.bind (note_reads .invalidTarget equals) fun _ s' progress =>
      .pure progress.sound (progress.taken.sublist (by simp))
  cases target with
  | name m => exact .pure progress.sound progress.taken.assign
  | get object property => exact progress.yield List.perm_append_comm
  | _ => exact dropped

mutual

theorem expression_reads : ∀ depth, ReadsExpr rule (expression depth)
  | 0 => fun _ sound => tooDeep_yields sound
  | depth + 1 => by
    intro s sound
    rw [expression]
    refine (Progress.initial sound).bind (chain_reads (unary_reads depth) layers layers_join)
      fun target s' progress => ?_
    refine progress.bind (accept?_reads [.equal]) fun equals s'' progress => ?_
    cases equals with
    | none => exact progress.yield (by simp)
    | some equals =>
      exact progress.bind (expression_reads depth) fun value t progress =>
        assignment_yields (by simpa using progress) equals

theorem unary_reads : ∀ depth, ReadsExpr rule (unary depth)
  | 0 => fun _ sound => tooDeep_yields sound
  | depth + 1 => by
    intro s sound
    rw [unary]
    refine (Progress.initial sound).bind (accept?_reads [.bang, .minus])
      fun operator s' progress => ?_
    cases operator with
    | none => exact progress.finish (operand_reads (expression_reads depth)) fun e => by simp
    | some operator =>
      exact progress.bind (unary_reads depth) fun e s'' progress =>
        progress.yield (by simp [Expr.subjects])

end

/-! ## Statements -/

/-- A parser of declarations, which yields nothing where there was a fault. -/
abbrev ReadsDeclaration (rule : Token → Prop) (p : Parser (Option Stmt)) : Prop :=
  Reads rule p fun found => found.toList.flatMap Stmt.subjects

abbrev ReadsStatement (rule : Token → Prop) (p : Parser Stmt) : Prop := Reads rule p Stmt.subjects

theorem allSubjects_filterMap (found : List (Option Stmt)) :
    Stmt.allSubjects (found.filterMap id) =
      found.flatMap fun s => s.toList.flatMap Stmt.subjects := by
  rw [Stmt.allSubjects_eq]
  induction found with
  | nil => rfl
  | cons s rest inductionHypothesis =>
    rw [List.flatMap_cons, ← inductionHypothesis]
    cases s with
    | none => rfl
    | some t =>
      change t.subjects ++ List.flatMap _ (rest.filterMap id) = (t.subjects ++ []) ++ _
      rw [List.append_nil]

section Declarations

variable {declaration : Parser (Option Stmt)} (reads : ReadsDeclaration rule declaration)
include reads

theorem block_reads : Reads rule (block declaration) Stmt.allSubjects := by
  intro s sound
  refine (Progress.initial sound).bind (many_reads fun _ t sound => ?_ :
      Reads rule _ fun found => found.flatMap fun s => s.toList.flatMap Stmt.subjects)
    fun found s' progress => ?_
  · refine (Progress.initial sound).bind (next_reads .rightBrace) fun brace t' progress => ?_
    refine progress.bind atEnd_reads fun ended u progress => ?_
    by_cases closed : (brace || ended) = true
    · simp only [closed, if_true]
      exact progress.yield (by simp)
    · simp only [closed]
      exact progress.bind reads fun found u' progress => progress.yield (by simp)
  · exact progress.bind (skip_reads .rightBrace .noBlockEnd) fun _ s'' progress =>
      progress.yield (by rw [allSubjects_filterMap, List.append_nil, List.nil_append])

/-- The name of the function comes before its other subjects. -/
theorem function_reads (form : FunctionForm) :
    Reads rule (function form declaration) fun f => .declaration f.name :: f.subjects := by
  intro s sound
  refine (Progress.initial sound).bind (expectName_reads _) fun name s₁ progress => ?_
  refine progress.bind (skip_reads _ _) fun _ s₂ progress => ?_
  refine progress.unless .rightParen rfl
    (separated_reads (expectName_reads _) .tooManyParameters) fun parameters s₃ progress => ?_
  refine progress.bind (skip_reads _ _) fun _ s₄ progress => ?_
  refine progress.bind (skip_reads _ _) fun _ s₅ progress => ?_
  refine progress.bind (block_reads reads) fun body s₆ progress => ?_
  refine progress.yield (.of_eq ?_)
  simp only [Function.subjects, Function.name, List.map_map, List.nil_append, List.append_nil,
    List.cons_append]
  rw [List.map_eq_flatMap]
  rfl

omit reads in
theorem superclass_reads (name : Token) :
    Reads rule superclass fun parent => (parent.map (Subject.superclass name)).toList := by
  intro s sound
  refine (Progress.initial sound).bind (accept_reads .less) fun less s' progress => ?_
  cases less with
  | true =>
    refine progress.bind (expect_reads .noSuperclassName (fun _ follows => follows)
      (by rintro o m ⟨⟩; rfl) : Reads rule _ (fun o => [.superclass name o])) fun o s'' progress => ?_
    exact progress.yield (by simp)
  | false => exact progress.yield (by simp)

theorem classDeclaration_reads : Reads rule (classDeclaration declaration) Stmt.subjects := by
  have method : Reads rule (function .method declaration) Function.subjects :=
    (function_reads reads .method).sublist fun f => List.sublist_cons_self _ _
  intro s sound
  refine (Progress.initial sound).bind (expectName_reads _) fun name s₁ progress => ?_
  refine progress.bind (superclass_reads name.token) fun parent s₂ progress => ?_
  refine progress.bind (skip_reads _ _) fun _ s₃ progress => ?_
  refine progress.bind (many_reads fun _ t sound => ?_ :
      Reads rule _ fun methods => methods.flatMap Function.subjects)
    fun methods s₄ progress => ?_
  · refine (Progress.initial sound).bind (next_reads .rightBrace) fun brace t' progress => ?_
    refine progress.bind atEnd_reads fun ended u progress => ?_
    by_cases closed : (brace || ended) = true
    · simp only [closed, if_true]
      exact progress.yield (by simp)
    · simp only [closed]
      exact progress.bind method fun found u' progress => progress.yield (by simp)
  · exact progress.bind (skip_reads _ _) fun _ s₅ progress =>
      progress.yield (by simp [Stmt.subjects, Function.allSubjects_eq])

end Declarations

section Simple

variable {expression : Parser Expr} (reads : ReadsExpr rule expression)
include reads

theorem varDeclaration_reads : Reads rule (varDeclaration expression) Stmt.subjects := by
  intro s sound
  refine (Progress.initial sound).bind (expectName_reads _) fun name s₁ progress => ?_
  refine progress.optional .equal reads fun initializer s₂ progress => ?_
  refine progress.bind (skip_reads _ _) fun _ s₃ progress => ?_
  cases initializer <;> exact progress.yield (by simp [Stmt.subjects])

theorem expressionStatement_reads : ReadsStatement rule (expressionStatement expression) := by
  intro s sound
  refine (Progress.initial sound).bind reads fun value s₁ progress => ?_
  exact progress.bind (skip_reads _ _) fun _ s₂ progress => progress.yield (by simp [Stmt.subjects])

theorem printStatement_reads : ReadsStatement rule (printStatement expression) := by
  intro s sound
  refine (Progress.initial sound).bind reads fun value s₁ progress => ?_
  exact progress.bind (skip_reads _ _) fun _ s₂ progress => progress.yield (by simp [Stmt.subjects])

theorem returnStatement_reads {keyword : Token} (returns : keyword.kind = .kwReturn ∧ rule keyword) :
    ReadsStatement rule (returnStatement keyword expression) := by
  intro s sound
  have optional := Reads.some reads
  refine (Progress.initial sound).unless .semicolon rfl optional fun value s₁ progress => ?_
  refine progress.bind (skip_reads _ _) fun _ s₂ progress => ?_
  have taken := progress.taken.result returns
  cases value with
  | none => exact .pure progress.sound (by simpa [Stmt.subjects] using taken false)
  | some e => exact .pure progress.sound (by simpa [Stmt.subjects] using taken true)

variable {statement : Parser Stmt} (readsStatement : ReadsStatement rule statement)
include readsStatement

theorem whileStatement_reads : ReadsStatement rule (whileStatement expression statement) := by
  intro s sound
  refine (Progress.initial sound).bind (skip_reads _ _) fun _ s₁ progress => ?_
  refine progress.bind reads fun condition s₂ progress => ?_
  refine progress.bind (skip_reads _ _) fun _ s₃ progress => ?_
  refine progress.bind readsStatement fun body s₄ progress => ?_
  exact progress.yield (by simp [Stmt.subjects])

theorem ifStatement_reads : ReadsStatement rule (ifStatement expression statement) := by
  intro s sound
  refine (Progress.initial sound).bind (skip_reads _ _) fun _ s₁ progress => ?_
  refine progress.bind reads fun condition s₂ progress => ?_
  refine progress.bind (skip_reads _ _) fun _ s₃ progress => ?_
  refine progress.bind readsStatement fun thenBranch s₄ progress => ?_
  refine progress.optional .kwElse readsStatement fun elseBranch s₅ progress => ?_
  cases elseBranch <;> exact progress.yield (by simp [Stmt.subjects])

/-! ### Loops with clauses -/

omit reads readsStatement

/-- The increment of a loop is read before its body, and stands after it. -/
theorem forLoop_subjects (initializer : Option Stmt) (condition increment : Option Expr)
    (body : Stmt) :
    (forLoop initializer condition increment body).subjects.Perm
      (initializer.toList.flatMap Stmt.subjects ++ condition.toList.flatMap Expr.subjects ++
        increment.toList.flatMap Expr.subjects ++ body.subjects) := by
  cases initializer <;> cases condition <;> cases increment <;>
    simp [forLoop, Stmt.subjects, Stmt.allSubjects, Expr.subjects, List.perm_append_comm,
      List.Perm.append_left]

include reads

theorem forInitializer_reads : ReadsDeclaration rule (forInitializer expression) := by
  intro s sound
  refine (Progress.initial sound).bind (accept_reads .semicolon) fun absent s₁ progress => ?_
  cases absent with
  | true => exact progress.yield (by simp)
  | false =>
    refine progress.bind (accept_reads .kwVar) fun declares s₂ progress => ?_
    cases declares with
    | true => exact progress.finish (varDeclaration_reads reads).some fun _ => by simp
    | false => exact progress.finish (expressionStatement_reads reads).some fun _ => by simp

include readsStatement

theorem forStatement_reads : ReadsStatement rule (forStatement expression statement) := by
  have optional := Reads.some reads
  intro s sound
  refine (Progress.initial sound).bind (skip_reads _ _) fun _ s₁ progress => ?_
  refine progress.bind (forInitializer_reads reads) fun initializer s₂ progress => ?_
  refine progress.unless .semicolon rfl optional fun condition s₃ progress => ?_
  refine progress.bind (skip_reads _ _) fun _ s₄ progress => ?_
  refine progress.unless .rightParen rfl optional fun increment s₅ progress => ?_
  refine progress.bind (skip_reads _ _) fun _ s₆ progress => ?_
  refine progress.bind readsStatement fun body s₇ progress => ?_
  refine progress.yield ?_
  simpa using forLoop_subjects initializer condition increment body

end Simple

/-! ### Programs -/

mutual

theorem declaration_reads {expression : Parser Expr} (reads : ReadsExpr rule expression) :
    ∀ depth, ReadsDeclaration rule (declaration expression depth)
  | 0 => fun _ sound => tooDeep_yields sound
  | depth + 1 => by
    rw [declaration]
    refine recovering_reads fun s sound => ?_
    refine (Progress.initial sound).bind (accept?_reads declarationStarts) fun start s₁ progress => ?_
    cases start with
    | none => exact progress.finish (statement_reads reads depth) fun _ => by simp
    | some first =>
      have inner := declaration_reads reads depth
      dsimp only
      split
      · exact progress.finish (classDeclaration_reads inner) fun _ => by simp
      · exact progress.bind (function_reads inner .function) fun f s₂ progress =>
          progress.yield (by simp [Stmt.subjects])
      · exact progress.finish (varDeclaration_reads reads) fun _ => by simp

theorem statement_reads {expression : Parser Expr} (reads : ReadsExpr rule expression) :
    ∀ depth, ReadsStatement rule (statement expression depth)
  | 0 => fun _ sound => tooDeep_yields sound
  | depth + 1 => by
    intro s sound
    rw [statement]
    refine (accept?_yields sound statementStarts).bind fun start s₁ leads read => ?_
    have progress : Progress rule s.position s₁ [] := (Progress.initial sound).advance leads .nil
    cases start with
    | none => exact progress.finish (expressionStatement_reads reads) fun _ => by simp
    | some first =>
      have inner := statement_reads reads depth
      dsimp only
      split
      · exact progress.finish (forStatement_reads reads inner) fun _ => by simp
      · exact progress.finish (ifStatement_reads reads inner) fun _ => by simp
      · exact progress.finish (printStatement_reads reads) fun _ => by simp
      · next returns =>
        exact progress.finish (returnStatement_reads reads ⟨returns, read.lawful⟩) fun _ => by simp
      · exact progress.finish (whileStatement_reads reads inner) fun _ => by simp
      · exact progress.bind (block_reads (declaration_reads reads depth)) fun body s₂ progress =>
          progress.yield (by simp [Stmt.subjects])

end

theorem program_reads (depth : Nat) : Reads rule (program depth) Stmt.allSubjects := by
  intro s sound
  refine (Progress.initial sound).bind (many_reads fun _ t sound => ?_ :
      Reads rule _ fun found => found.flatMap fun s => s.toList.flatMap Stmt.subjects)
    fun found s' progress =>
      progress.yield (by rw [allSubjects_filterMap, List.nil_append])
  refine (Progress.initial sound).bind atEnd_reads fun ended t' progress => ?_
  cases ended with
  | true => exact progress.yield (by simp)
  | false =>
    exact progress.bind (declaration_reads (expression_reads depth) depth)
      fun found u progress => progress.yield (by simp)

theorem State.initial_sound (start : Nat) {tokens : List Token} (lawful : ∀ t ∈ tokens, rule t) :
    (State.initial start tokens).Sound rule := by
  refine ⟨fun t ahead => lawful t ?_, rfl⟩
  simp only [State.initial, List.span_eq_takeWhile_dropWhile] at ahead
  exact (List.takeWhile_sublist _).subset ahead

end Grammar

/-- The trees of a parse mention each token at most once, and only tokens of the list. -/
theorem parse?_taken {rule : Token → Prop} {depth start : Nat} {tokens : List Token} {parsed : Parse}
    (lawful : ∀ t ∈ tokens, rule t) (result : parse? depth start tokens = some parsed) :
    TakenBetween rule start (start + (tokens.takeWhile (·.kind != .endOfInput)).length)
      (Stmt.allSubjects parsed.statements) := by
  have sound := Grammar.State.initial_sound start lawful
  have reads := Grammar.program_reads depth _ sound
  unfold Grammar.Yields at reads
  obtain ⟨s, outcome, -⟩ := parse?_eq_some_iff.1 result
  rw [outcome] at reads
  obtain ⟨leads, taken⟩ := reads
  have counted := leads.sound.counted
  -- The end-of-input token, which no step changes, is numbered after all that can be read.
  have last : s.last.id = start + (tokens.takeWhile (·.kind != .endOfInput)).length := by
    rw [leads.last, Grammar.State.initial, List.span_eq_takeWhile_dropWhile]
  refine ⟨taken.lawful, fun n found => ?_, taken.distinct⟩
  have bounds : start ≤ n ∧ n < s.position := taken.bounds n found
  omega

/-- If the tokens are spelled right, so are the subjects, and declarations stand in lists of statements. -/
theorem parse?_reads {depth start : Nat} {tokens : List Token} {parsed : Parse}
    (spelled : ∀ t ∈ tokens, t.Spelled) (result : parse? depth start tokens = some parsed) :
    ReadBetween start (start + (tokens.takeWhile (·.kind != .endOfInput)).length)
        (Stmt.allSubjects parsed.statements) ∧
      Stmt.AllWellPlaced parsed.statements :=
  ⟨(parse?_taken spelled result).readBetween, parse?_wellPlaced result⟩

end Lox
