import Lox.Proofs.Cursor.Walk

/-!
# The grammar, by index

Each production as a walk. What does not read tokens (the layers of operators, the trees of loops) is
shared with the parser over the tokens ahead.
-/

namespace Lox.Cursor

open Grammar (Layer Suffix maxArguments layers operandStarts statementStarts declarationStarts forLoop)

/-! ## Expressions -/

def separated {α : Type} (tooMany : ParseFault) (item : Walk α) : Walk (List α) := do
  let first ← item
  let others ← many fun count => do
    if ← accept .comma then
      if maxArguments ≤ count + 1 then noteHere tooMany
      return some (← item)
    else return none
  return first :: others

def chain (operand : Walk Expr) : List Layer → Walk Expr
  | [] => operand
  | layer :: tighter => do
    let first ← chain operand tighter
    let others ← many fun _ => do
      match ← accept? layer.operators with
      | none => return none
      | some operator => return some (operator, ← chain operand tighter)
    return others.foldl (fun left (operator, right) => layer.node left operator right) first

def arguments (expression : Walk Expr) : Walk Suffix := do
  let found ← if ← next .rightParen then pure [] else separated .tooManyArguments expression
  let paren ← expect .rightParen .noArgumentsEnd
  return .call paren found

def suffix (expression : Walk Expr) : Walk (Option Suffix) := do
  if ← accept .leftParen then return some (← arguments expression)
  else if ← accept .dot then
    let property ← expect .identifier .noPropertyName
    return some (.get property)
  else return none

def primary (expression : Walk Expr) : Walk Expr := do
  match ← accept? operandStarts with
  | none => fail .noExpression
  | some first =>
    match first.token.kind with
    | .kwFalse => return .literal (.bool false)
    | .kwTrue => return .literal (.bool true)
    | .kwNil => return .literal .nil
    | .kwSuper =>
      skip .dot .noSuperDot
      let method ← expect .identifier .noSuperMethod
      return .super first method
    | .kwThis => return .this first
    | .identifier => return .name first
    | .leftParen =>
      let inner ← expression
      skip .rightParen .noGroupingEnd
      return .grouping inner
    | _ => return .literal first.token.literal

def operand (expression : Walk Expr) : Walk Expr := do
  let first ← primary expression
  let suffixes ← many fun _ => suffix expression
  return suffixes.foldl Suffix.apply first

def assignment (equals : Occurrence) (target value : Expr) : Walk Expr :=
  match target with
  | .name name => return .assign name value
  | .get object property => return .set object property value
  | _ => do
    note .invalidTarget equals
    return target

mutual

def expression : (depth : Nat) → Walk Expr
  | 0 => tooDeep
  | depth + 1 => do
    let target ← chain (unary depth) layers
    match ← accept? [.equal] with
    | none => return target
    | some equals => assignment equals target (← expression depth)

def unary : (depth : Nat) → Walk Expr
  | 0 => tooDeep
  | depth + 1 => do
    match ← accept? [.bang, .minus] with
    | some operator => return .unary operator (← unary depth)
    | none => operand (expression depth)

end

/-! ## Parts of declarations -/

def block (declaration : Walk (Option Stmt)) : Walk (List Stmt) := do
  let found ← many fun _ => do
    if (← next .rightBrace) || (← atEnd) then return none
    else return some (← declaration)
  skip .rightBrace .noBlockEnd
  return found.filterMap id

def function (form : FunctionForm) (declaration : Walk (Option Stmt)) : Walk Function := do
  let name ← expect .identifier (.noFunctionName form)
  skip .leftParen (.noParameters form)
  let parameters ← if ← next .rightParen then pure []
    else separated .tooManyParameters (expect .identifier .noParameterName)
  skip .rightParen .noParametersEnd
  skip .leftBrace (.noFunctionBody form)
  let body ← block declaration
  return .mk name.token (parameters.map Occurrence.token) body

def superclass : Walk (Option Occurrence) := do
  if ← accept .less then return some (← expect .identifier .noSuperclassName)
  else return none

def classDeclaration (declaration : Walk (Option Stmt)) : Walk Stmt := do
  let name ← expect .identifier .noClassName
  let parent ← superclass
  skip .leftBrace .noClassBody
  let methods ← many fun _ => do
    if (← next .rightBrace) || (← atEnd) then return none
    else return some (← function .method declaration)
  skip .rightBrace .noClassEnd
  return .class name parent methods

def varDeclaration (expression : Walk Expr) : Walk Stmt := do
  let name ← expect .identifier .noVariableName
  let initializer ← if ← accept .equal then some <$> expression else pure none
  skip .semicolon .noVariableEnd
  return .var name.token initializer

/-! ## Statements -/

def expressionStatement (expression : Walk Expr) : Walk Stmt := do
  let value ← expression
  skip .semicolon .noExpressionEnd
  return .expression value

def printStatement (expression : Walk Expr) : Walk Stmt := do
  let value ← expression
  skip .semicolon .noPrintEnd
  return .print value

def returnStatement (keyword : Token) (expression : Walk Expr) : Walk Stmt := do
  let value ← if ← next .semicolon then pure none else some <$> expression
  skip .semicolon .noReturnEnd
  return .return keyword value

def whileStatement (expression : Walk Expr) (statement : Walk Stmt) : Walk Stmt := do
  skip .leftParen .noWhileCondition
  let condition ← expression
  skip .rightParen .noWhileConditionEnd
  return .while condition (← statement)

def ifStatement (expression : Walk Expr) (statement : Walk Stmt) : Walk Stmt := do
  skip .leftParen .noIfCondition
  let condition ← expression
  skip .rightParen .noIfConditionEnd
  let thenBranch ← statement
  let elseBranch ← if ← accept .kwElse then some <$> statement else pure none
  return .ite condition thenBranch elseBranch

def forInitializer (expression : Walk Expr) : Walk (Option Stmt) := do
  if ← accept .semicolon then return none
  else if ← accept .kwVar then some <$> varDeclaration expression
  else some <$> expressionStatement expression

def forStatement (expression : Walk Expr) (statement : Walk Stmt) : Walk Stmt := do
  skip .leftParen .noForClauses
  let initializer ← forInitializer expression
  let condition ← if ← next .semicolon then pure none else some <$> expression
  skip .semicolon .noForConditionEnd
  let increment ← if ← next .rightParen then pure none else some <$> expression
  skip .rightParen .noForClausesEnd
  let body ← statement
  return forLoop initializer condition increment body

/-! ## Declarations and programs -/

mutual

def declaration (expression : Walk Expr) : (depth : Nat) → Walk (Option Stmt)
  | 0 => tooDeep
  | depth + 1 => recovering do
    match ← accept? declarationStarts with
    | none => statement expression depth
    | some first =>
      match first.token.kind with
      | .kwClass => classDeclaration (declaration expression depth)
      | .kwFun => return .function (← function .function (declaration expression depth))
      | _ => varDeclaration expression

def statement (expression : Walk Expr) : (depth : Nat) → Walk Stmt
  | 0 => tooDeep
  | depth + 1 => do
    match ← accept? statementStarts with
    | none => expressionStatement expression
    | some first =>
      match first.token.kind with
      | .kwFor => forStatement expression (statement expression depth)
      | .kwIf => ifStatement expression (statement expression depth)
      | .kwPrint => printStatement expression
      | .kwReturn => returnStatement first.token expression
      | .kwWhile => whileStatement expression (statement expression depth)
      | _ => return .block (← block (declaration expression depth))

end

/-- A step of a loop that goes on up to the end. -/
def unlessEnded {α : Type} (p : Walk α) : Nat → Walk (Option α) := fun _ => do
  if ← atEnd then return none else return some (← p)

def program (depth : Nat) : Walk (List Stmt) := do
  let found ← many (unlessEnded (declaration (expression depth) depth))
  return found.filterMap id

/-- A walk stands in front of the first token, which has the number `start`. -/
def initial (start : Nat) (tokens : List Token) : Cursor :=
  { tokens, start, position := 0, errors := [], visited := [0], attempts := [] }

end Lox.Cursor
