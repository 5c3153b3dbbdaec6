import Lox.Grammar.Expression

/-!
# The grammar of statements

Declarations and statements. A fault ends the declaration around it; the parser then goes on at the
next boundary. `parse` reads a whole token list.
-/

namespace Lox.Grammar

/-! ## Parts -/

/-- The statements of a block, whose opening brace has been read. -/
def block (declaration : Parser (Option Stmt)) : Parser (List Stmt) := do
  let found ← many fun _ => do
    if (← next .rightBrace) || (← atEnd) then return none
    else return some (← declaration)
  skip .rightBrace .noBlockEnd
  return found.filterMap id

/-- A function declaration from its name on. -/
def function (form : FunctionForm) (declaration : Parser (Option Stmt)) : Parser Function := do
  let name ← expect .identifier (.noFunctionName form)
  skip .leftParen (.noParameters form)
  let parameters ← if ← next .rightParen then pure []
    else separated .tooManyParameters (expect .identifier .noParameterName)
  skip .rightParen .noParametersEnd
  skip .leftBrace (.noFunctionBody form)
  let body ← block declaration
  return .mk name.token (parameters.map Occurrence.token) body

/-- The superclass of a class declaration, if it has one. -/
def superclass : Parser (Option Occurrence) := do
  if ← accept .less then return some (← expect .identifier .noSuperclassName)
  else return none

/-- A class declaration from its name on. -/
def classDeclaration (declaration : Parser (Option Stmt)) : Parser Stmt := do
  let name ← expect .identifier .noClassName
  let parent ← superclass
  skip .leftBrace .noClassBody
  let methods ← many fun _ => do
    if (← next .rightBrace) || (← atEnd) then return none
    else return some (← function .method declaration)
  skip .rightBrace .noClassEnd
  return .class name parent methods

/-- A variable declaration from its name on. -/
def varDeclaration (expression : Parser Expr) : Parser Stmt := do
  let name ← expect .identifier .noVariableName
  let initializer ← if ← accept .equal then some <$> expression else pure none
  skip .semicolon .noVariableEnd
  return .var name.token initializer

def expressionStatement (expression : Parser Expr) : Parser Stmt := do
  let value ← expression
  skip .semicolon .noExpressionEnd
  return .expression value

def printStatement (expression : Parser Expr) : Parser Stmt := do
  let value ← expression
  skip .semicolon .noPrintEnd
  return .print value

def returnStatement (keyword : Token) (expression : Parser Expr) : Parser Stmt := do
  let value ← if ← next .semicolon then pure none else some <$> expression
  skip .semicolon .noReturnEnd
  return .return keyword value

def whileStatement (expression : Parser Expr) (statement : Parser Stmt) : Parser Stmt := do
  skip .leftParen .noWhileCondition
  let condition ← expression
  skip .rightParen .noWhileConditionEnd
  return .while condition (← statement)

/-- A conditional. An `else` belongs to the nearest `if` before it. -/
def ifStatement (expression : Parser Expr) (statement : Parser Stmt) : Parser Stmt := do
  skip .leftParen .noIfCondition
  let condition ← expression
  skip .rightParen .noIfConditionEnd
  let thenBranch ← statement
  let elseBranch ← if ← accept .kwElse then some <$> statement else pure none
  return .ite condition thenBranch elseBranch

/-! ## Loops with clauses -/

/-- The tree of a `for` loop with the given clauses. -/
def forLoop (initializer : Option Stmt) (condition increment : Option Expr) (body : Stmt) : Stmt :=
  let step := match increment with
    | none => body
    | some e => .block [body, .expression e]
  let loop := .while (condition.getD (.literal (.bool true))) step
  match initializer with
  | none => loop
  | some first => .block [first, loop]

/-- The first clause of a `for` loop, with the semicolon that ends it. -/
def forInitializer (expression : Parser Expr) : Parser (Option Stmt) := do
  if ← accept .semicolon then return none
  else if ← accept .kwVar then some <$> varDeclaration expression
  else some <$> expressionStatement expression

def forStatement (expression : Parser Expr) (statement : Parser Stmt) : Parser Stmt := do
  skip .leftParen .noForClauses
  let initializer ← forInitializer expression
  let condition ← if ← next .semicolon then pure none else some <$> expression
  skip .semicolon .noForConditionEnd
  let increment ← if ← next .rightParen then pure none else some <$> expression
  skip .rightParen .noForClausesEnd
  let body ← statement
  return forLoop initializer condition increment body

/-! ## Statements and declarations -/

/-- The kinds of tokens that select a form of statement. -/
def statementStarts : List TokenKind :=
  [.kwFor, .kwIf, .kwPrint, .kwReturn, .kwWhile, .leftBrace]

/-- The kinds of tokens that select a form of declaration. -/
def declarationStarts : List TokenKind := [.kwClass, .kwFun, .kwVar]

mutual

/-- A declaration that nests at most `depth` levels, or nothing if it has a fault. -/
def declaration (expression : Parser Expr) : (depth : Nat) → Parser (Option Stmt)
  | 0 => tooDeep
  | depth + 1 => recovering do
    match ← accept? declarationStarts with
    | none => statement expression depth
    | some first =>
      match first.token.kind with
      | .kwClass => classDeclaration (declaration expression depth)
      | .kwFun => return .function (← function .function (declaration expression depth))
      | _ => varDeclaration expression

/-- A statement that nests at most `depth` levels. -/
def statement (expression : Parser Expr) : (depth : Nat) → Parser Stmt
  | 0 => tooDeep
  | depth + 1 => do
    match ← accept? statementStarts with
    | none => expressionStatement expression
    | some first =>
      match first.token.kind with
      | .kwFor => forStatement expression (statement expression depth)
      | .kwIf => ifStatement expression (statement expression depth)
      | .kwPrint => printStatement expression
      | .kwReturn => returnStatement first.token expression
      | .kwWhile => whileStatement expression (statement expression depth)
      | _ => return .block (← block (declaration expression depth))

end

/-- A whole program that nests at most `depth` levels. -/
def program (depth : Nat) : Parser (List Stmt) := do
  let found ← many fun _ => do
    if ← atEnd then return none
    else return some (← declaration (expression depth) depth)
  return found.filterMap id

end Lox.Grammar

namespace Lox

/-- The result of parsing: the declarations without a fault, and all faults. -/
structure Parse where
  statements : List Stmt
  errors : List ParseError
deriving Inhabited

/-- The state before the first token, which has the number `start`. -/
def Grammar.State.initial (start : Nat) (tokens : List Token) : Grammar.State :=
  let (ahead, rest) := tokens.span (·.kind != .endOfInput)
  { ahead
    position := start
    last := ⟨start + ahead.length, rest.headD (endToken 1)⟩
    errors := #[] }

/--
Parses the tokens up to the first end-of-input token, the first of which has the number `start`.
There is no result if they nest more than `depth` levels.
-/
def parse? (depth start : Nat) (tokens : List Token) : Option Parse :=
  match Grammar.program depth (.initial start tokens) with
  | .ok statements s => some ⟨statements, s.errors.toList⟩
  | .error _ _ => none

end Lox
