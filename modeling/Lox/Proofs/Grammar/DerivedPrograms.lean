import Lox.Proofs.Grammar.Completeness
import Lox.Proofs.Grammar.DerivedExpressions

/-!
# The programs that the parser reads

Statements and declarations that are read without a fault have derivations, and so has a whole program.
An `else` that follows is read, so after a statement to which it could belong there is none.
-/

namespace Lox.Grammar

variable {budget : Nat} {α β : Type} {s : State}

/-! ## Parts of statements -/

/-- The word has a derivation as a statement, and no `else` that could belong to it follows. -/
def DerivesStatement (w : List Occurrence) (tree : Stmt) (s : State) : Prop :=
  ∃ dangling, ∃ d : Derivation (.statement dangling), d.yield = w ∧ d.tree = tree ∧
    AfterStatement dangling s

section Parts

variable {expression : Parser Expr} {P : List Occurrence → β → State → Prop}
  (value : Finder budget expression fun w e _ => Derives .expression w e)
include value

/-- An expression that is left out if the token that closes it is next. -/
theorem optional_finds {kind : TokenKind} {f : Option Expr → Parser β} (counted : s.Counted)
    (rest : ∀ found s', s.Onward s' → Finds budget (f found) s' fun w' b s'' =>
      ∀ w, s.Passes w s' → Derives .optional w found → P (w ++ w') b s'') :
    Finds budget (next kind >>= fun closed =>
      if closed = true then pure none >>= f else some <$> expression >>= f) s P := by
  apply Finds.next
  · intro _
    apply (rest none s (.refl counted)).mono
    intro w' b s'' _ holds
    exact holds [] (.nothing s) ⟨.noExpression, rfl, rfl⟩
  · intro _
    have found : Finds budget (some <$> expression) s fun w found _ => Derives .optional w found := by
      apply (value s counted).map
      rintro w e s' - ⟨d, rfl, rfl⟩
      exact ⟨.someExpression d, rfl, rfl⟩
    exact found.bind rest

theorem expressionStatement_finds : Finder budget (expressionStatement expression)
    fun w tree _ => Derives .expressionStatement w tree := by
  intro s counted
  apply (value s counted).bind
  intro e s' onward
  apply Finds.skip onward.counted
  intro semicolon advanced
  apply Finds.pure advanced
  rintro w - ⟨d, rfl, rfl⟩
  exact ⟨.expressionStatement d semicolon, rfl, rfl⟩

theorem varDeclaration_finds : Finder budget (varDeclaration expression)
    fun w tree _ => Derives .varDeclaration w tree := by
  intro s counted
  apply Finds.expect counted
  intro name advanced
  apply Finds.accept advanced
  · intro _
    apply Finds.skip advanced
    intro semicolon advanced
    exact .pure advanced ⟨.varDeclaration name .noInitializer semicolon, rfl, rfl⟩
  · intro equals _ advanced
    have assigned := (value.lessBudget (by omega : budget - 1 - 1 ≤ budget)) _ advanced
    apply (assigned.map fun w e s' _ holds => ⟨e, rfl, holds⟩ : Finds _ _ _ fun w found _ =>
      ∃ e, found = some e ∧ Derives .expression w e).bind
    intro found s' onward
    apply Finds.skip onward.counted
    intro semicolon advanced
    apply Finds.pure advanced
    rintro w - ⟨e, rfl, d, rfl, rfl⟩
    exact ⟨.varDeclaration name (.someInitializer equals d) semicolon, by simp [Derivation.yield], rfl⟩

theorem forInitializer_finds : Finder budget (forInitializer expression)
    fun w tree _ => Derives .forInitializer w tree := by
  intro s counted
  apply Finds.accept counted
  · intro _
    apply Finds.accept counted
    · intro _
      apply (expressionStatement_finds value s counted).map
      rintro w e s' - ⟨d, rfl, rfl⟩
      exact ⟨.expressionClause d, rfl, rfl⟩
    · intro keyword _ advanced
      apply ((varDeclaration_finds value).lessBudget (Nat.sub_le budget 1) _ advanced).map
      rintro w e s' - ⟨d, rfl, rfl⟩
      exact ⟨.varClause keyword d, rfl, rfl⟩
  · intro semicolon _ advanced
    exact .pure advanced ⟨.noClause semicolon, rfl, rfl⟩

theorem printStatement_finds (keyword : Terminal [.kwPrint]) :
    Finder budget (printStatement expression) fun w tree s =>
      DerivesStatement (keyword.occurrence :: w) tree s := by
  intro s counted
  apply (value s counted).bind
  intro e s' onward
  apply Finds.skip onward.counted
  intro semicolon advanced
  apply Finds.pure advanced
  rintro w - ⟨d, rfl, rfl⟩
  exact ⟨false, .print keyword d semicolon, rfl, rfl, Bool.noConfusion⟩

theorem returnStatement_finds (keyword : Terminal [.kwReturn]) :
    Finder budget (returnStatement keyword.token expression) fun w tree s =>
      DerivesStatement (keyword.occurrence :: w) tree s := by
  intro s counted
  apply optional_finds value counted
  intro found s' onward
  apply Finds.skip onward.counted
  intro semicolon advanced
  apply Finds.pure advanced
  rintro w - ⟨d, rfl, rfl⟩
  exact ⟨false, .return keyword d semicolon, rfl, rfl, Bool.noConfusion⟩

section Bodies

variable {statement : Parser Stmt} (body : Finder budget statement DerivesStatement)
include body

theorem whileStatement_finds (keyword : Terminal [.kwWhile]) :
    Finder budget (whileStatement expression statement) fun w tree s =>
      DerivesStatement (keyword.occurrence :: w) tree s := by
  intro s counted
  apply Finds.skip counted
  intro left advanced
  apply (value.lessBudget (Nat.sub_le budget 1) _ advanced).bind
  intro condition s' onward
  apply Finds.skip onward.counted
  intro right advanced
  apply (body.lessBudget (by omega) _ advanced).map
  rintro w' tree s'' - ⟨dangling, d, rfl, rfl, after⟩ w - ⟨c, rfl, rfl⟩
  exact ⟨dangling, .while keyword left c right d, rfl, rfl, after⟩

theorem ifStatement_finds (keyword : Terminal [.kwIf]) :
    Finder budget (ifStatement expression statement) fun w tree s =>
      DerivesStatement (keyword.occurrence :: w) tree s := by
  intro s counted
  apply Finds.skip counted
  intro left advanced
  apply (value.lessBudget (Nat.sub_le budget 1) _ advanced).bind
  intro condition s' onward
  apply Finds.skip onward.counted
  intro right advanced
  apply (body.lessBudget (by omega) _ advanced).bind
  intro thenBranch s'' onward
  apply Finds.accept onward.counted
  · intro noElse
    apply Finds.pure onward.counted
    rintro w' - ⟨dangling, d, rfl, rfl, -⟩ w - ⟨c, rfl, rfl⟩
    exact ⟨true, .ifThen keyword left c right d, by simp [Derivation.yield], rfl, fun _ => noElse⟩
  · intro otherwise elseNext advanced
    apply ((body.lessBudget (by omega) _ advanced).map fun w tree s' _ holds =>
      ⟨tree, rfl, holds⟩ : Finds _ _ _ fun w found s' =>
        ∃ tree, found = some tree ∧ DerivesStatement w tree s').bind
    intro found s''' onward
    apply Finds.pure onward.counted
    rintro w'' - ⟨tree, rfl, dangling, e, rfl, rfl, after⟩ w' - ⟨inner, d, rfl, rfl, before⟩ w -
      ⟨c, rfl, rfl⟩
    cases inner with
    | false =>
      exact ⟨dangling, .ifElse keyword left c right d otherwise e, by simp [Derivation.yield], rfl,
        after⟩
    | true =>
      -- the statement would have read the `else` itself
      obtain ⟨t, here, isElse⟩ := elseNext
      exact absurd isElse (before rfl t here)

theorem forStatement_finds (keyword : Terminal [.kwFor]) :
    Finder budget (forStatement expression statement) fun w tree s =>
      DerivesStatement (keyword.occurrence :: w) tree s := by
  intro s counted
  apply Finds.skip counted
  intro left advanced
  apply ((forInitializer_finds value).lessBudget (Nat.sub_le budget 1) _ advanced).bind
  intro initializer s₁ onward
  apply optional_finds (value.lessBudget (Nat.sub_le budget 1)) onward.counted
  intro condition s₂ onward
  apply Finds.skip onward.counted
  intro semicolon advanced
  apply optional_finds (value.lessBudget (by omega)) advanced
  intro increment s₃ onward
  apply Finds.skip onward.counted
  intro right advanced
  apply (body.lessBudget (by omega) _ advanced).map
  rintro w₄ tree s₄ - ⟨dangling, d, rfl, rfl, after⟩ w₃ - ⟨n, rfl, rfl⟩ w₂ - ⟨c, rfl, rfl⟩ w₁ -
    ⟨i, rfl, rfl⟩
  exact ⟨dangling, .for keyword left i c semicolon n right d, by simp [Derivation.yield], rfl, after⟩

end Bodies

end Parts

/-! ## Blocks, functions and classes -/

/-- The word has a derivation as a declaration, whose tree is found. -/
def DerivesDeclaration (w : List Occurrence) (found : Option Stmt) : Prop :=
  ∃ d : Derivation .declaration, d.yield = w ∧ found = some d.tree

theorem Derivation.yield_ne_nil {symbol : Symbol} (d : Derivation symbol) {kinds : List TokenKind}
    (first : kinds ∈ symbol.starts?) : d.yield ≠ [] := by
  obtain ⟨o, rest, word, -⟩ := d.starts kinds first
  rw [word]
  exact List.cons_ne_nil o rest

theorem unlessClosed_finds {p : Parser α} {Q : List Occurrence → α → Prop}
    (finder : Finder budget p fun w a _ => Q w a) (nonempty : ∀ w a, Q w a → w ≠ []) (count : Nat) :
    Finder budget (unlessClosed p count) (Found (fun _ => True) Q) := by
  intro s counted
  have item : Finds budget (do return some (← p)) s (Found (fun _ => True) Q) :=
    (finder s counted).map fun w a _ _ holds => ⟨nonempty w a holds, holds⟩
  have stop : Finds budget (pure none) s (Found (fun _ => True) Q) := .pure counted ⟨rfl, trivial⟩
  apply Finds.next
  · exact fun _ => .atEnd (fun _ => stop) stop
  · exact fun _ => .atEnd (fun _ => stop) item

/-- The steps of a loop over declarations find a derivation of them all. -/
theorem declarations_find {step : Nat → Parser (Option (Option Stmt))} {Stop : State → Prop}
    (each : ∀ count, Finder budget (step count) (Found Stop DerivesDeclaration)) :
    Finder budget (many step) fun w items s => Stop s ∧
      ∃ d : Derivation .declarations, d.yield = w ∧ items = d.tree.map some := by
  apply Finder.many Stop (fun _ => DerivesDeclaration)
    (fun _ w items => ∃ d : Derivation .declarations, d.yield = w ∧ items = d.tree.map some) each
  · exact fun _ => ⟨.noDeclaration, rfl, rfl⟩
  · rintro _ _ _ _ _ ⟨d, rfl, rfl⟩ ⟨others, rfl, rfl⟩
    exact ⟨.declarations d others, rfl, rfl⟩

theorem parameter_finds : Finder budget (expect .identifier .noParameterName) fun w o _ =>
    ∃ name : Identifier, w = [o] ∧ name.occurrence = o := by
  intro s counted
  rw [← bind_pure (expect .identifier .noParameterName)]
  apply Finds.expect counted
  intro name advanced
  exact .pure advanced ⟨name, rfl, rfl⟩

theorem parameters_of_tokens {w : List Occurrence} {others : List Occurrence}
    (all : AfterCommas (fun w o => ∃ name : Identifier, w = [o] ∧ name.occurrence = o) w others) :
    ∃ pairs : List (Terminal [.comma] × Identifier),
      w = pairs.flatMap (fun other => [other.1.occurrence, other.2.occurrence]) ∧
        others = pairs.map fun other => other.2.occurrence := by
  induction all with
  | nil => exact ⟨[], rfl, rfl⟩
  | cons comma item _ inductionHypothesis =>
    obtain ⟨name, rfl, rfl⟩ := item
    obtain ⟨pairs, rfl, rfl⟩ := inductionHypothesis
    exact ⟨(comma, name) :: pairs, rfl, rfl⟩

theorem superclass_finds : Finder budget superclass fun w found _ =>
    ∃ parent : Option Heritage, w = parent.elim [] Heritage.yield ∧
      found = parent.map (·.2.occurrence) := by
  intro s counted
  apply Finds.accept counted
  · exact fun _ => .pure counted ⟨none, rfl, rfl⟩
  · intro less _ advanced
    apply Finds.expect advanced
    intro name advanced
    exact .pure advanced ⟨some (less, name), rfl, rfl⟩

section Declarations

variable {declaration : Parser (Option Stmt)}
  (finder : Finder budget declaration fun w found _ => DerivesDeclaration w found)
include finder

theorem block_finds : Finder budget (block declaration) fun w found _ =>
    ∃ (d : Derivation .declarations) (right : Terminal [.rightBrace]),
      w = d.yield ++ [right.occurrence] ∧ found = d.tree := by
  have nonempty : ∀ w found, DerivesDeclaration w found → w ≠ [] := by
    rintro w found ⟨d, rfl, -⟩
    exact d.yield_ne_nil rfl
  have all := declarations_find (unlessClosed_finds finder nonempty)
  intro s counted
  apply (all s counted).bind
  intro items s' onward
  apply Finds.skip onward.counted
  intro right advanced
  apply Finds.pure advanced
  rintro w - ⟨-, d, rfl, rfl⟩
  exact ⟨d, right, rfl, by simp⟩

theorem function_finds (form : FunctionForm) : Finder budget (function form declaration)
    fun w tree _ => Derives .function w tree := by
  intro s counted
  apply Finds.expect counted
  intro name advanced
  apply Finds.skip advanced
  intro leftParen advanced
  apply Finds.next
  · intro _
    apply Finds.skip advanced
    intro rightParen advanced
    apply Finds.skip advanced
    intro leftBrace advanced
    apply ((block_finds finder).lessBudget (by omega) _ advanced).map
    rintro w body s' - ⟨d, rightBrace, rfl, rfl⟩
    exact ⟨.function name leftParen none rightParen leftBrace d rightBrace, rfl, rfl⟩
  · intro _
    apply (separated_finds .tooManyParameters parameter_finds _ advanced).bind
    intro items s' onward
    apply Finds.skip onward.counted
    intro rightParen advanced
    apply Finds.skip advanced
    intro leftBrace advanced
    apply ((block_finds finder).lessBudget (by omega) _ advanced).map
    rintro w' body s'' - ⟨d, rightBrace, rfl, rfl⟩ w - ⟨_, _, w₂, others, rfl, rfl, ⟨first, rfl, rfl⟩,
      all, few⟩
    obtain ⟨pairs, rfl, rfl⟩ := parameters_of_tokens all
    rw [List.length_map] at few
    refine ⟨.function name leftParen (some ⟨first, pairs, few⟩) rightParen leftBrace d rightBrace,
      ?_, ?_⟩
    · simp [Derivation.yield, Parameters.yield]
    · simp [Derivation.tree, Parameters.tokens, Terminal.token]

theorem classDeclaration_finds (keyword : Terminal [.kwClass]) :
    Finder budget (classDeclaration declaration) fun w tree _ =>
      Derives .declaration (keyword.occurrence :: w) tree := by
  -- A repetition asks of its step that it reads a token.
  have nonempty : ∀ w f, Derives .function w f → w ≠ [] := by
    rintro w f ⟨d, rfl, -⟩
    exact d.yield_ne_nil rfl
  have methods := Finder.many _ (fun _ => _)
    (fun _ w methods => Derives .methods w methods)
    (unlessClosed_finds (function_finds finder .method) nonempty) ?nothing ?more
  · intro s counted
    apply Finds.expect counted
    intro name advanced
    apply (superclass_finds _ advanced).bind
    intro parent s' onward
    apply Finds.skip onward.counted
    intro left advanced
    apply (methods.lessBudget (by omega) _ advanced).bind
    intro found s'' onward
    apply Finds.skip onward.counted
    intro right advanced
    apply Finds.pure advanced
    rintro w' - ⟨-, d, rfl, rfl⟩ w - ⟨parent, rfl, rfl⟩
    exact ⟨.class keyword name parent left d right, by simp [Derivation.yield], rfl⟩
  · exact fun _ => ⟨.noMethod, rfl, rfl⟩
  · rintro _ _ _ _ _ ⟨d, rfl, rfl⟩ ⟨others, rfl, rfl⟩
    exact ⟨.someMethod d others, rfl, rfl⟩

end Declarations

/-! ## Statements and declarations -/

section Nested

variable {expression : Parser Expr} {depth : Nat}

theorem statement_finds_succ
    (value : Finder budget expression fun w e _ => Derives .expression w e)
    (body : Finder (budget - 1) (statement expression depth) DerivesStatement)
    (finder : Finder (budget - 1) (declaration expression depth)
      fun w found _ => DerivesDeclaration w found) :
    Finder budget (statement expression (depth + 1)) DerivesStatement := by
  have part := value.lessBudget (Nat.sub_le budget 1)
  rw [statement_eq]
  intro s counted
  apply Finds.accept? counted
  · intro _
    apply (expressionStatement_finds value s counted).mono
    rintro w tree s' - ⟨d, rfl, rfl⟩
    exact ⟨false, .expressionOnly d, rfl, rfl, Bool.noConfusion⟩
  · intro first advanced
    have kind := first.kind_mem
    simp only [statementStarts, List.mem_cons, List.not_mem_nil, or_false] at kind
    -- The first token decides on the rule.
    rcases kind with same | same | same | same | same | same
    · simp only [same]
      exact forStatement_finds part body (first.narrow (by simp [same])) _ advanced
    · simp only [same]
      exact ifStatement_finds part body (first.narrow (by simp [same])) _ advanced
    · simp only [same]
      exact printStatement_finds part (first.narrow (by simp [same])) _ advanced
    · simp only [same]
      exact returnStatement_finds part (first.narrow (by simp [same])) _ advanced
    · simp only [same]
      exact whileStatement_finds part body (first.narrow (by simp [same])) _ advanced
    · simp only [same]
      apply (block_finds finder _ advanced).map
      rintro w found s' - ⟨d, right, rfl, rfl⟩
      exact ⟨false, .block (first.narrow (by simp [same])) d right, rfl, rfl, Bool.noConfusion⟩

theorem declaration_finds_succ
    (value : Finder budget expression fun w e _ => Derives .expression w e)
    (body : Finder budget (statement expression depth) DerivesStatement)
    (finder : Finder (budget - 1) (declaration expression depth)
      fun w found _ => DerivesDeclaration w found) :
    Finder budget (declaration expression (depth + 1))
      fun w found _ => DerivesDeclaration w found := by
  have part := value.lessBudget (Nat.sub_le budget 1)
  let Tree : List Occurrence → Stmt → State → Prop := fun w tree _ => Derives .declaration w tree
  rw [declaration_eq]
  -- A declaration that recovered has left an error, and then nothing is claimed of what it read.
  refine (Finder.recovering (Q := Tree) fun s counted => ?_).mono ?_
  · apply Finds.accept? counted
    · intro _
      apply (body s counted).mono
      rintro w tree s' - ⟨dangling, d, rfl, rfl, -⟩
      exact ⟨.statementOnly d, rfl, rfl⟩
    · intro first advanced
      have kind := first.kind_mem
      simp only [declarationStarts, List.mem_cons, List.not_mem_nil, or_false] at kind
      rcases kind with same | same | same
      · simp only [same]
        exact classDeclaration_finds finder (first.narrow (by simp [same])) _ advanced
      · simp only [same]
        apply (function_finds finder .function _ advanced).map
        rintro w tree s' - ⟨d, rfl, rfl⟩
        exact ⟨.fun (first.narrow (by simp [same])) d, rfl, rfl⟩
      · simp only [same]
        apply (varDeclaration_finds part _ advanced).mono
        rintro w tree s' - ⟨d, rfl, rfl⟩
        exact ⟨.var (first.narrow (by simp [same])) d, rfl, rfl⟩
  · rintro w found s' ⟨_, rfl, d, rfl, rfl⟩
    exact ⟨d, rfl, rfl⟩

end Nested

theorem nested_find (height depth : Nat) :
    (Finder (min ((depth + 1) / 2) (height / 2)) (statement (expression height) depth)
        DerivesStatement) ∧
      Finder (min (depth / 2) (height / 2)) (declaration (expression height) depth)
        fun w found _ => DerivesDeclaration w found := by
  have value := expression_finds height
  -- From block to block the depth falls by two, for the statement and the declaration in it.
  induction depth with
  | zero =>
    have statement : Finder 0 (statement (expression height) 0) DerivesStatement :=
      fun _ _ => .tooDeep
    have declaration : Finder 0 (declaration (expression height) 0)
        fun w found _ => DerivesDeclaration w found := fun _ _ => .tooDeep
    exact ⟨statement.lessBudget (by omega), declaration.lessBudget (by omega)⟩
  | succ depth inductionHypothesis =>
    obtain ⟨body, finder⟩ := inductionHypothesis
    constructor
    · exact statement_finds_succ (value.lessBudget (by omega)) (body.lessBudget (by omega))
        (finder.lessBudget (by omega))
    · exact declaration_finds_succ (value.lessBudget (by omega)) (body.lessBudget (by omega))
        (finder.lessBudget (by omega))

theorem declaration_finds (depth : Nat) :
    Finder (depth / 2) (declaration (expression depth) depth)
      fun w found _ => DerivesDeclaration w found :=
  (nested_find depth depth).2.lessBudget (by omega)

theorem unlessEnded_finds {p : Parser α} {Q : List Occurrence → α → Prop}
    (finder : Finder budget p fun w a _ => Q w a) (nonempty : ∀ w a, Q w a → w ≠ []) (count : Nat) :
    Finder budget (unlessEnded p count) (Found State.Ended Q) := by
  intro s counted
  apply Finds.atEnd
  · exact fun ended => .pure counted ⟨rfl, ended⟩
  · exact (finder s counted).map fun w a _ _ holds => ⟨nonempty w a holds, holds⟩

/-- A program that is read without a fault has a derivation, and it is read to its end. -/
theorem program_finds (depth : Nat) : Finder (depth / 2) (program depth)
    fun w tree s => s.Ended ∧ Derives .declarations w tree := by
  have nonempty : ∀ w found, DerivesDeclaration w found → w ≠ [] := by
    rintro w found ⟨d, rfl, -⟩
    exact d.yield_ne_nil rfl
  have all := declarations_find (unlessEnded_finds (declaration_finds depth) nonempty)
  intro s counted
  apply (all s counted).map
  rintro w found s' - ⟨ended, d, rfl, rfl⟩
  exact ⟨ended, d, rfl, by simp⟩

end Lox.Grammar
