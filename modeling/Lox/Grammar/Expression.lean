import Lox.Grammar.Parser
import Lox.Syntax

/-!
# The grammar of expressions

Binary operators come in six layers, from `or` to `*` and `/`; `chain` reads any of them and builds
trees that lean to the left. Assignments and prefix operators nest to the right.
-/

namespace Lox.Grammar

/-- Operators of one precedence and the form of tree that they build. -/
structure Layer where
  operators : List TokenKind
  node : Expr → Occurrence → Expr → Expr

/-- The layers of binary operators, from the one that binds least. -/
def layers : List Layer :=
  [⟨[.kwOr], .logical⟩,
    ⟨[.kwAnd], .logical⟩,
    ⟨[.bangEqual, .equalEqual], .binary⟩,
    ⟨[.greater, .greaterEqual, .less, .lessEqual], .binary⟩,
    ⟨[.minus, .plus], .binary⟩,
    ⟨[.slash, .star], .binary⟩]

/-- Operands with operators of the given layers between them. -/
def chain (operand : Parser Expr) : List Layer → Parser Expr
  | [] => operand
  | layer :: tighter => do
    let first ← chain operand tighter
    let others ← many fun _ => do
      match ← accept? layer.operators with
      | none => return none
      | some operator => return some (operator, ← chain operand tighter)
    return others.foldl (fun left (operator, right) => layer.node left operator right) first

/-- What may follow an operand: arguments with the parenthesis that closes them, or a property. -/
inductive Suffix where
  | call (paren : Occurrence) (arguments : List Expr)
  | get (property : Occurrence)
deriving Inhabited

def Suffix.apply (e : Expr) : Suffix → Expr
  | call paren arguments => .call e paren arguments
  | get property => .get e property

/-- The arguments of a call, whose opening parenthesis has been read. -/
def arguments (expression : Parser Expr) : Parser Suffix := do
  let found ← if ← next .rightParen then pure [] else separated .tooManyArguments expression
  let paren ← expect .rightParen .noArgumentsEnd
  return .call paren found

def suffix (expression : Parser Expr) : Parser (Option Suffix) := do
  if ← accept .leftParen then return some (← arguments expression)
  else if ← accept .dot then
    let property ← expect .identifier .noPropertyName
    return some (.get property)
  else return none

/-- The kinds of tokens that an operand may begin with. -/
def operandStarts : List TokenKind :=
  [.kwFalse, .kwTrue, .kwNil, .number, .string, .kwSuper, .kwThis, .identifier, .leftParen]

def primary (expression : Parser Expr) : Parser Expr := do
  match ← accept? operandStarts with
  | none => fail .noExpression
  | some first =>
    match first.token.kind with
    | .kwFalse => return .literal (.bool false)
    | .kwTrue => return .literal (.bool true)
    | .kwNil => return .literal .nil
    | .kwSuper =>
      skip .dot .noSuperDot
      let method ← expect .identifier .noSuperMethod
      return .super first method
    | .kwThis => return .this first
    | .identifier => return .name first
    | .leftParen =>
      let inner ← expression
      skip .rightParen .noGroupingEnd
      return .grouping inner
    | _ => return .literal first.token.literal

/-- An operand and its suffixes. -/
def operand (expression : Parser Expr) : Parser Expr := do
  let first ← primary expression
  let suffixes ← many fun _ => suffix expression
  return suffixes.foldl Suffix.apply first

/--
The tree of an assignment to `target`. A target that is neither a name nor a property is noted, and
the value is dropped.
-/
def assignment (equals : Occurrence) (target value : Expr) : Parser Expr :=
  match target with
  | .name name => return .assign name value
  | .get object property => return .set object property value
  | _ => do
    note .invalidTarget equals
    return target

mutual

/-- An expression that nests at most `depth` levels. -/
def expression : (depth : Nat) → Parser Expr
  | 0 => tooDeep
  | depth + 1 => do
    let target ← chain (unary depth) layers
    match ← accept? [.equal] with
    | none => return target
    | some equals => assignment equals target (← expression depth)

/-- An operand with any number of prefix operators. -/
def unary : (depth : Nat) → Parser Expr
  | 0 => tooDeep
  | depth + 1 => do
    match ← accept? [.bang, .minus] with
    | some operator => return .unary operator (← unary depth)
    | none => operand (expression depth)

end

end Lox.Grammar
