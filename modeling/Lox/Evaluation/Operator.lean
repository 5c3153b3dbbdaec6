import Lox.Failure
import Lox.Heap.Basic

/-!
# Operators

Operators on values, told apart by the kind of their token. Arithmetic is that of doubles; a division
by zero gives an infinity or no number.
-/

namespace Lox

/-- A prefix operator. -/
def unaryOperation (operator : TokenKind) (operand : Value) : Except RuntimeFault Value :=
  match operator with
  | .bang => .ok (.bool !operand.isTruthy)
  | .minus =>
    match operand with
    | .number x => .ok (.number (-x))
    | _ => .error .operandNotNumber
  | _ => .error .unknownUnary

/-- An operator on two numbers. -/
def numberOperation (operator : TokenKind) (x y : Float) : Except RuntimeFault Value :=
  match operator with
  | .minus => .ok (.number (x - y))
  | .star => .ok (.number (x * y))
  | .slash => .ok (.number (x / y))
  | .greater => .ok (.bool (x > y))
  | .greaterEqual => .ok (.bool (x ≥ y))
  | .less => .ok (.bool (x < y))
  | .lessEqual => .ok (.bool (x ≤ y))
  | _ => .error .unknownBinary

/-- An operator between two values. All but equality and `+` ask for two numbers first. -/
def binaryOperation (operator : TokenKind) (left right : Value) : Except RuntimeFault Value :=
  match operator with
  | .equalEqual => .ok (.bool (left.equals right))
  | .bangEqual => .ok (.bool !left.equals right)
  | .plus =>
    match left, right with
    | .number x, .number y => .ok (.number (x + y))
    | .string s, .string t => .ok (.string (s ++ t))
    | _, _ => .error .operandsNotAddable
  | operator =>
    match left, right with
    | .number x, .number y => numberOperation operator x y
    | _, _ => .error .operandsNotNumbers

end Lox
