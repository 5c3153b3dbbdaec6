import Lox.Syntax

/-!
# Bounded height

`fits` tells whether a tree nests at most so many levels, without going deeper to find out. Programs
are checked with it before they are walked by recursion.
-/

namespace Lox

mutual

/-- Whether an expression nests at most the given number of levels. -/
def Expr.fits : Expr → Nat → Bool
  | _, 0 => false
  | .literal _, _ + 1 => true
  | .grouping inner, n + 1 => inner.fits n
  | .name _, _ + 1 => true
  | .assign _ value, n + 1 => value.fits n
  | .unary _ operand, n + 1 => operand.fits n
  | .binary left _ right, n + 1 => left.fits n && right.fits n
  | .logical left _ right, n + 1 => left.fits n && right.fits n
  | .call callee _ arguments, n + 1 => callee.fits n && Expr.allFit arguments n
  | .get object _, n + 1 => object.fits n
  | .set object _ value, n + 1 => object.fits n && value.fits n
  | .this _, _ + 1 => true
  | .super _ _, _ + 1 => true

def Expr.allFit : List Expr → Nat → Bool
  | [], _ => true
  | e :: rest, n => e.fits n && Expr.allFit rest n

end

mutual

/-- Whether a statement nests at most the given number of levels. -/
def Stmt.fits : Stmt → Nat → Bool
  | _, 0 => false
  | .expression value, n + 1 => value.fits n
  | .print value, n + 1 => value.fits n
  | .var _ none, _ + 1 => true
  | .var _ (some initializer), n + 1 => initializer.fits n
  | .block body, n + 1 => Stmt.allFit body n
  | .ite condition thenBranch none, n + 1 => condition.fits n && thenBranch.fits n
  | .ite condition thenBranch (some elseBranch), n + 1 =>
    condition.fits n && thenBranch.fits n && elseBranch.fits n
  | .while condition body, n + 1 => condition.fits n && body.fits n
  | .function declaration, n + 1 => declaration.fits n
  | .return _ none, _ + 1 => true
  | .return _ (some value), n + 1 => value.fits n
  | .class _ _ methods, n + 1 => Function.allFit methods n

def Stmt.allFit : List Stmt → Nat → Bool
  | [], _ => true
  | s :: rest, n => s.fits n && Stmt.allFit rest n

/-- Whether the body of a function nests at most the given number of levels. -/
def Function.fits : Function → Nat → Bool
  | .mk _ _ body, n => Stmt.allFit body n

def Function.allFit : List Function → Nat → Bool
  | [], _ => true
  | f :: rest, n => f.fits n && Function.allFit rest n

end

end Lox
