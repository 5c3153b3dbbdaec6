import Lox.Token

/-!
# Faults of scope

What can be wrong with a program whose grammar is right, found without running it.
-/

namespace Lox

inductive ScopeFault where
  | alreadyDeclared
  | ownInitializer
  | topLevelReturn
  | initializerReturn
  | thisOutsideClass
  | superOutsideClass
  | superWithoutSuperclass
  | inheritsFromItself
deriving DecidableEq, Inhabited, Repr

def ScopeFault.message : ScopeFault → String
  | alreadyDeclared => "Already a variable with this name in this scope."
  | ownInitializer => "Can't read local variable in its own initializer."
  | topLevelReturn => "Can't return from top-level code."
  | initializerReturn => "Can't return a value from an initializer."
  | thisOutsideClass => "Can't use 'this' outside of a class."
  | superOutsideClass => "Can't use 'super' outside of a class."
  | superWithoutSuperclass => "Can't use 'super' in a class with no superclass."
  | inheritsFromItself => "A class can't inherit from itself."

/-- A fault and the token that it concerns. -/
structure ScopeError where
  fault : ScopeFault
  token : Token
deriving DecidableEq, Inhabited, Repr

end Lox
