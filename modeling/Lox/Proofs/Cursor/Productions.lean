import Lox.Proofs.Cursor.Following

/-!
# Walks follow the productions

Each production by index follows the one over the tokens ahead. All but the optional ones read a token when
they have a result; this is what keeps the loops from going round without end.
-/

namespace Lox.Cursor

open Grammar (Halt State Parser Layer Suffix layers)

variable {I : Input}

/-! ## Expressions -/

section Expressions

variable {α : Type} {E : α → Prop} {q : Parser α} {p : Walk α}

/-- A further item comes after a comma. -/
theorem anotherItem_follows {tooMany : ParseFault} (other : tooMany.raised = false)
    (item : Eats I q p) (count : Nat) :
    Follows I (fun found => found.isSome = true)
      (do
        if ← Grammar.accept .comma then
          if Grammar.maxArguments ≤ count + 1 then Grammar.noteHere tooMany
          return some (← q)
        else return none)
      (do
        if ← accept .comma then
          if Grammar.maxArguments ≤ count + 1 then noteHere tooMany
          return some (← p)
        else return none) := by
  have another : Keeps I (do return some (← q)) (do return some (← p)) :=
    item.after fun _ => .pure not_false
  refine .accept ?_ (.pure nofun)
  -- the comma has been read, so whether a fault is noted makes no difference
  by_cases full : Grammar.maxArguments ≤ count + 1
  · simp only [if_true, full]
    exact (Follows.noteHere other).bind fun _ => another
  · simp only [if_true, full, if_false]
    exact another

theorem separated_follows {E : List α → Prop} {tooMany : ParseFault} (other : tooMany.raised = false)
    (item : Eats I q p) : Follows I E (Grammar.separated tooMany q) (separated tooMany p) :=
  item.after fun _ => (Follows.many (anotherItem_follows other item)).bind fun _ => .pure not_false

variable {E : Expr → Prop} {operand : Parser Expr} {walkOperand : Walk Expr}
  {expression : Parser Expr} {walkExpression : Walk Expr}

theorem chain_follows (operands : Eats I operand walkOperand) (tiers : List Layer) :
    Eats I (Grammar.chain operand tiers) (chain walkOperand tiers) := by
  induction tiers with
  | nil => exact operands
  | cons layer tighter inductionHypothesis =>
    refine inductionHypothesis.after fun first => ?_
    refine (Follows.many fun _ => ?_).bind fun others => .pure not_false
    exact .accept? (fun _ => inductionHypothesis.after fun _ => .pure not_false) (.pure nofun)

theorem arguments_follows {E : Suffix → Prop} (expressions : Eats I expression walkExpression) :
    Follows I E (Grammar.arguments expression) (arguments walkExpression) :=
  .unless (separated_follows rfl expressions) fun _ =>
    (Follows.expect rfl).after fun _ => .pure not_false

theorem suffix_follows (expressions : Eats I expression walkExpression) :
    Follows I (fun found => found.isSome = true) (Grammar.suffix expression)
      (suffix walkExpression) := by
  refine .accept ((arguments_follows expressions).after fun _ => .pure not_false) ?_
  exact .accept ((Follows.expect rfl).after fun _ => .pure not_false) (.pure nofun)

theorem primary_follows (expressions : Eats I expression walkExpression) :
    Follows I E (Grammar.primary expression) (primary walkExpression) := by
  refine .accept? (fun first => ?_) (.fail rfl)
  dsimp only
  generalize first.token.kind = kind
  cases kind with
  | kwSuper =>
    refine (Follows.skip rfl).after fun _ => ?_
    exact (Follows.expect rfl).after fun _ => .pure not_false
  | leftParen =>
    refine expressions.after fun _ => ?_
    exact (Follows.skip rfl).after fun _ => .pure not_false
  | _ => exact .pure not_false

theorem operand_follows (expressions : Eats I expression walkExpression) :
    Follows I E (Grammar.operand expression) (Cursor.operand walkExpression) :=
  (primary_follows expressions).after fun _ =>
    (Follows.many fun _ => suffix_follows expressions).bind fun _ => .pure not_false

theorem assignment_follows (equals : Occurrence) (target value : Expr) :
    Keeps I (Grammar.assignment equals target value) (assignment equals target value) := by
  have dropped : Keeps I (do Grammar.note .invalidTarget equals; return target)
      (do note .invalidTarget equals; return target) :=
    (Follows.note rfl equals).bind fun _ => .pure not_false
  cases target with
  | name | get => exact .pure not_false
  | _ => exact dropped

end Expressions

mutual

theorem expression_follows : ∀ depth, Eats I (Grammar.expression depth) (expression depth)
  | 0 => .tooDeep
  | depth + 1 => by
    rw [Grammar.expression, expression]
    refine (chain_follows (unary_follows depth) layers).after fun target => ?_
    refine .accept? (fun equals => ?_) (.pure not_false)
    exact (expression_follows depth).after fun value => assignment_follows equals target value

theorem unary_follows : ∀ depth, Eats I (Grammar.unary depth) (unary depth)
  | 0 => .tooDeep
  | depth + 1 => by
    rw [Grammar.unary, unary]
    refine .accept? (fun operator => ?_) (operand_follows (expression_follows depth))
    exact (unary_follows depth).map

end

/-! ## Parts of declarations -/

/-- A further declaration is read unless the loop stops, as it does at the end. -/
theorem Goes.further {α : Type} {q : Parser α} {p : Walk α} (goes : Goes I q p) {s : State}
    {c : Cursor} (stands : Stands I s c) (sound : Sound I c none) {stops : Bool}
    (ended : s.ahead.isEmpty = true → stops = true) :
    Outcome I (fun found => found.isSome = true) c
      ((if stops then return none else return some (← q) : Parser (Option α)) s)
      ((if stops then return none else return some (← p) : Walk (Option α)) c) := by
  cases stops with
  | true => exact .ok stands sound (.refl c) nofun
  -- not at the end: here a declaration reads a token even if it ends with a fault
  | false =>
    have inside : c.position < I.stop := by
      obtain ⟨empty, -⟩ | ⟨-, -, -, inside, -⟩ := stands.cases
      · simp [empty] at ended
      · exact inside
    refine (goes s c stands sound inside).bind fun a s' c' stands' sound' leads eats => ?_
    exact .ok stands' sound' leads fun _ => eats trivial

/-- A step of a loop that ends at a closing brace, or at the end. -/
theorem unlessClosed_follows {α : Type} {q : Parser α} {p : Walk α} (goes : Goes I q p) :
    Follows I (fun found => found.isSome = true)
      (do if (← Grammar.next .rightBrace) || (← Grammar.atEnd) then return none else return some (← q))
      (do if (← next .rightBrace) || (← atEnd) then return none else return some (← p)) := by
  refine .next fun closed => .atEnd fun s c stands sound => ?_
  exact goes.further stands sound fun ended => by rw [ended, Bool.or_true]

section Declarations

variable {declaration : Parser (Option Stmt)} {walkDeclaration : Walk (Option Stmt)}
  (declarations : Goes I declaration walkDeclaration)
include declarations

theorem block_follows {E : List Stmt → Prop} :
    Follows I E (Grammar.block declaration) (block walkDeclaration) := by
  refine (Follows.many fun _ => unlessClosed_follows declarations).bind fun _ => ?_
  exact (Follows.skip rfl).after fun _ => .pure not_false

theorem function_follows {E : Function → Prop} (form : FunctionForm) :
    Follows I E (Grammar.function form declaration) (function form walkDeclaration) := by
  refine (Follows.expect rfl).after fun _ => (Follows.skip rfl).after fun _ => ?_
  refine .unless (separated_follows rfl (Follows.expect rfl)) fun _ => ?_
  refine (Follows.skip rfl).after fun _ => (Follows.skip rfl).after fun _ => ?_
  exact (block_follows declarations).after fun _ => .pure not_false

theorem classDeclaration_follows {E : Stmt → Prop} :
    Follows I E (Grammar.classDeclaration declaration) (classDeclaration walkDeclaration) := by
  have parents : Keeps I Grammar.superclass superclass :=
    .accept ((Follows.expect rfl).after fun _ => .pure not_false) (.pure not_false)
  have methods : Goes I (Grammar.function .method declaration) (function .method walkDeclaration) :=
    fun s c stands sound _ => function_follows declarations .method s c stands sound
  refine (Follows.expect rfl).after fun _ => parents.bind fun _ => ?_
  refine (Follows.skip rfl).after fun _ => ?_
  refine (Follows.many fun _ => unlessClosed_follows methods).bind fun _ => ?_
  exact (Follows.skip rfl).after fun _ => .pure not_false

end Declarations

/-! ## Statements -/

section Statements

variable {E : Stmt → Prop} {expression : Parser Expr} {walkExpression : Walk Expr}
  (expressions : Eats I expression walkExpression)
include expressions

theorem varDeclaration_follows :
    Follows I E (Grammar.varDeclaration expression) (varDeclaration walkExpression) := by
  have rest : ∀ (name : Occurrence) (initializer : Option Expr), Keeps I
      (do
        Grammar.skip .semicolon .noVariableEnd
        return Stmt.var name.token initializer)
      (do
        skip .semicolon .noVariableEnd
        return Stmt.var name.token initializer) :=
    fun _ _ => (Follows.skip rfl).after fun _ => .pure not_false
  exact (Follows.expect rfl).after fun name => .optional expressions (rest name) (rest name none)

theorem expressionStatement_follows :
    Follows I E (Grammar.expressionStatement expression) (expressionStatement walkExpression) :=
  expressions.after fun _ => (Follows.skip rfl).after fun _ => .pure not_false

theorem printStatement_follows :
    Follows I E (Grammar.printStatement expression) (printStatement walkExpression) :=
  expressions.after fun _ => (Follows.skip rfl).after fun _ => .pure not_false

theorem returnStatement_follows (keyword : Token) :
    Follows I E (Grammar.returnStatement keyword expression)
      (returnStatement keyword walkExpression) :=
  .unless expressions.map fun _ => (Follows.skip rfl).after fun _ => .pure not_false

theorem forInitializer_follows :
    Keeps I (Grammar.forInitializer expression) (forInitializer walkExpression) := by
  refine .accept (.pure not_false) (.accept ?_ ?_)
  · exact (varDeclaration_follows expressions).map
  · exact (expressionStatement_follows expressions).map

variable {statement : Parser Stmt} {walkStatement : Walk Stmt}
  (statements : Eats I statement walkStatement)
include statements

theorem whileStatement_follows :
    Follows I E (Grammar.whileStatement expression statement)
      (whileStatement walkExpression walkStatement) := by
  refine (Follows.skip rfl).after fun _ => expressions.after fun _ => ?_
  exact (Follows.skip rfl).after fun _ => statements.map

theorem ifStatement_follows :
    Follows I E (Grammar.ifStatement expression statement)
      (ifStatement walkExpression walkStatement) := by
  refine (Follows.skip rfl).after fun _ => expressions.after fun _ => ?_
  refine (Follows.skip rfl).after fun _ => statements.after fun _ => ?_
  exact .optional statements (fun _ => .pure not_false) (.pure not_false)

theorem forStatement_follows :
    Follows I E (Grammar.forStatement expression statement)
      (forStatement walkExpression walkStatement) := by
  refine (Follows.skip rfl).after fun _ => (forInitializer_follows expressions).bind fun _ => ?_
  refine .unless expressions.map fun _ => (Follows.skip rfl).after fun _ => ?_
  refine .unless expressions.map fun _ => (Follows.skip rfl).after fun _ => ?_
  exact statements.after fun _ => .pure not_false

end Statements

/-! ## Declarations and programs -/

mutual

theorem declaration_goes {expression : Parser Expr} {walkExpression : Walk Expr}
    (expressions : Eats I expression walkExpression) :
    ∀ depth, Goes I (Grammar.declaration expression depth) (declaration walkExpression depth)
  | 0 => fun _ _ _ _ _ => .tooDeep
  | depth + 1 => by
    rw [Grammar.declaration, declaration]
    have declarations := declaration_goes expressions depth
    refine Follows.recovering (.accept? (fun first => ?_) (statement_follows expressions depth))
    dsimp only
    generalize first.token.kind = kind
    cases kind with
    | kwClass => exact classDeclaration_follows declarations
    | kwFun => exact (function_follows declarations .function).map
    | _ => exact varDeclaration_follows expressions

theorem statement_follows {expression : Parser Expr} {walkExpression : Walk Expr}
    (expressions : Eats I expression walkExpression) :
    ∀ depth, Eats I (Grammar.statement expression depth) (statement walkExpression depth)
  | 0 => .tooDeep
  | depth + 1 => by
    rw [Grammar.statement, statement]
    have statements := statement_follows expressions depth
    refine .accept? (fun first => ?_) (expressionStatement_follows expressions)
    dsimp only
    generalize first.token.kind = kind
    cases kind with
    | kwFor => exact forStatement_follows expressions statements
    | kwIf => exact ifStatement_follows expressions statements
    | kwPrint => exact printStatement_follows expressions
    | kwReturn => exact returnStatement_follows expressions first.token
    | kwWhile => exact whileStatement_follows expressions statements
    | _ => exact (block_follows (declaration_goes expressions depth)).map

end

theorem program_follows (depth : Nat) : Keeps I (Grammar.program depth) (program depth) := by
  have step : ∀ count : Nat, Follows I (fun found => found.isSome = true)
      (do
        if ← Grammar.atEnd then return none
        else return some (← Grammar.declaration (Grammar.expression depth) depth))
      (unlessEnded (declaration (expression depth) depth) count) := by
    intro _
    unfold unlessEnded
    refine .atEnd fun s c stands sound => ?_
    exact (declaration_goes (expression_follows depth) depth).further stands sound id
  exact (Follows.many step).bind fun _ => .pure not_false

end Lox.Cursor
