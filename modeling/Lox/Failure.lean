import Lox.Token

/-!
# Failures of a run

A runtime error is the program's own mistake and names the occurrence of a token that it concerns.
An internal fault means that the distances used for a run do not fit the scopes of the program; a
program without static errors is not supposed to meet one.
-/

namespace Lox

inductive RuntimeFault where
  | undefinedVariable (name : String)
  | undefinedProperty (name : String)
  | operandNotNumber
  | operandsNotNumbers
  | operandsNotAddable
  | unknownUnary
  | unknownBinary
  | notCallable
  | wrongArity (expected found : Nat)
  | noProperties
  | noFields
  | superclassNotClass
deriving DecidableEq, Inhabited, Repr

def RuntimeFault.message : RuntimeFault → String
  | undefinedVariable name => "Undefined variable '" ++ name ++ "'."
  | undefinedProperty name => "Undefined property '" ++ name ++ "'."
  | operandNotNumber => "Operand must be a number."
  | operandsNotNumbers => "Operands must be numbers."
  | operandsNotAddable => "Operands must be two numbers or two strings."
  | unknownUnary => "Unknown unary operator."
  | unknownBinary => "Unknown binary operator."
  | notCallable => "Can only call functions and classes."
  | wrongArity expected found =>
    "Expected " ++ toString expected ++ " arguments but got " ++ toString found ++ "."
  | noProperties => "Only instances have properties."
  | noFields => "Only instances have fields."
  | superclassNotClass => "Superclass must be a class."

/-- A runtime fault and the occurrence of the token that it concerns. -/
structure RuntimeError where
  fault : RuntimeFault
  occurrence : Occurrence
deriving DecidableEq, Inhabited, Repr

/-- The token that the error concerns. -/
def RuntimeError.token (e : RuntimeError) : Token := e.occurrence.token

/-- Why an access at a distance fails. -/
inductive InternalFault where
  | noEnvironment (distance : Int)
  | unresolvedBinding (name : String) (distance : Int)
  | malformedSuper
deriving DecidableEq, Inhabited, Repr

def InternalFault.message : InternalFault → String
  | noEnvironment distance => "no environment at distance " ++ toString distance
  | unresolvedBinding name distance =>
    "unresolved binding '" ++ name ++ "' at distance " ++ toString distance
  | malformedSuper => "malformed super binding"

end Lox
