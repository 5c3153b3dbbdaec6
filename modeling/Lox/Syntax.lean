import Lox.Token

/-!
# Syntax trees

Expressions, statements and function declarations. A `for` loop has no form of its own: it is a
block around a `while`. Where a run may look up a binding or report an error, a tree holds an
`Occurrence`: its number tells it apart from every other place of a session with an equal token.
-/

namespace Lox

inductive Expr where
  | literal (value : Literal)
  | grouping (inner : Expr)
  | name (target : Occurrence)
  | assign (target : Occurrence) (value : Expr)
  | unary (operator : Occurrence) (operand : Expr)
  | binary (left : Expr) (operator : Occurrence) (right : Expr)
  | logical (left : Expr) (operator : Occurrence) (right : Expr)
  /-- A call; `paren` is its closing parenthesis. -/
  | call (callee : Expr) (paren : Occurrence) (arguments : List Expr)
  | get (object : Expr) (property : Occurrence)
  | set (object : Expr) (property : Occurrence) (value : Expr)
  | this (keyword : Occurrence)
  | super (keyword : Occurrence) (method : Occurrence)
deriving Inhabited

mutual

inductive Stmt where
  | expression (value : Expr)
  | print (value : Expr)
  | var (name : Token) (initializer : Option Expr)
  | block (body : List Stmt)
  | ite (condition : Expr) (thenBranch : Stmt) (elseBranch : Option Stmt)
  | while (condition : Expr) (body : Stmt)
  | function (declaration : Function)
  | return (keyword : Token) (value : Option Expr)
  | class (name : Occurrence) (superclass : Option Occurrence) (methods : List Function)

/-- A function or a method. -/
inductive Function where
  | mk (name : Token) (parameters : List Token) (body : List Stmt)

end

instance : Inhabited Stmt := ⟨.block []⟩

instance : Inhabited Function := ⟨.mk default [] []⟩

namespace Function

def name : Function → Token
  | .mk name _ _ => name

def parameters : Function → List Token
  | .mk _ parameters _ => parameters

def body : Function → List Stmt
  | .mk _ _ body => body

/-- The number of arguments that a call has to pass. -/
def arity (f : Function) : Nat := f.parameters.length

end Function

/-- The name of the method that runs when an instance is made. -/
def initializerName : String := "init"

/-- Whether a method of this declaration is an initializer. -/
def Function.isInitializer (f : Function) : Bool := f.name.lexeme == initializerName

/-- A program is a list of statements. -/
abbrev Program := List Stmt

end Lox
