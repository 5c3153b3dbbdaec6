import Lox.Evaluation.Operator

/-!
# Values that operators yield

An operator yields a truth value, a number or a string, and so does a literal unless it is `nil`. None of
these is a handle.
-/

namespace Lox

/-- A value that is no handle. -/
def Value.IsScalar : Value → Prop
  | .nil | .bool _ | .number _ | .string _ => True
  | _ => False

variable {operator : TokenKind} {v : Value}

theorem Value.ofLiteral_scalar (literal : Literal) : (Value.ofLiteral literal).IsScalar := by
  cases literal <;> trivial

theorem unaryOperation_scalar {operand : Value} (result : unaryOperation operator operand = .ok v) :
    v.IsScalar := by
  unfold unaryOperation at result
  split at result
  · cases result
    trivial
  · split at result <;> cases result
    trivial
  · cases result

theorem numberOperation_scalar {x y : Float} (result : numberOperation operator x y = .ok v) :
    v.IsScalar := by
  unfold numberOperation at result
  split at result <;> cases result <;> trivial

theorem binaryOperation_scalar {left right : Value}
    (result : binaryOperation operator left right = .ok v) : v.IsScalar := by
  unfold binaryOperation at result
  split at result
  · cases result
    trivial
  · cases result
    trivial
  · split at result <;> cases result <;> trivial
  · split at result
    · exact numberOperation_scalar result
    · cases result

end Lox
