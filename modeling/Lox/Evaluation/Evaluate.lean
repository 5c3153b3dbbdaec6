import Lox.Evaluation.Call
import Lox.Evaluation.Operator

/-!
# Evaluation

`evaluate` and `execute` walk the trees of a program. Their first argument bounds how deeply they nest,
so that every run ends: in a result, in an error of the program, or exhausted. A larger bound changes
no run that is not exhausted.
-/

namespace Lox

namespace Run

/-- The result of an operator. -/
def operation {σ : Type} (operator : Occurrence) :
    Except RuntimeFault Value → EStateM Signal σ Value
  | .ok value => return value
  | .error fault => fail operator fault

/-- Whether the value on the left decides a logical expression. Every kind but `or` acts as `and`. -/
def decides (operator : TokenKind) (left : Value) : Bool :=
  if operator = .kwOr then left.isTruthy else !left.isTruthy

/-- Gives a property of `object` the value that `value` yields. The object is checked first. -/
def assignProperty (object : Value) (key : Occurrence) (value : Run Value) : Run Value := do
  match object with
  | .instance i =>
    let v ← value
    change fun h => ((), h.setField i key.name v)
    return v
  | _ => fail key .noFields

/-- Runs statements in a new environment inside the current one. -/
def block (execute : Stmt → Run Unit) (body : List Stmt) : Run Unit := do
  let outer ← current
  let e ← change (·.newEnvironment ⟨.empty, some outer⟩)
  inEnvironment e (body.forM execute)

/-- Defines a name as a function that closes over the current environment. -/
def declareFunction (declaration : Function) : Run Unit := do
  let e ← current
  let f ← change (·.newFunction ⟨declaration, e, false⟩)
  define declaration.name.lexeme (.function f)

end Run

open Run

mutual

/-- The value of an expression. A loop inside it repeats at most `loops` times. -/
def evaluate (loops : Nat) : (depth : Nat) → Expr → Run Value
  | 0, _ => throw .exhausted
  | depth + 1, e =>
    match e with
    | .literal value => return .ofLiteral value
    | .grouping inner => evaluate loops depth inner
    | .name mention => lookUp mention
    | .assign mention value => do
      let v ← evaluate loops depth value
      assign mention v
      return v
    | .unary operator operand => do
      let v ← evaluate loops depth operand
      operation operator (unaryOperation operator.token.kind v)
    | .binary left operator right => do
      let l ← evaluate loops depth left
      let r ← evaluate loops depth right
      operation operator (binaryOperation operator.token.kind l r)
    | .logical left operator right => do
      let l ← evaluate loops depth left
      if decides operator.token.kind l then return l else evaluate loops depth right
    | .call callee paren arguments => do
      let f ← evaluate loops depth callee
      let vs ← arguments.mapM (evaluate loops depth)
      callChecked (execute loops depth) paren f vs
    | .get object name => do property (← evaluate loops depth object) name
    | .set object name value => do
      assignProperty (← evaluate loops depth object) name (evaluate loops depth value)
    | .this keyword => lookUp keyword
    | .super keyword method => superMethod keyword method

/-- Runs a statement. -/
def execute (loops : Nat) : (depth : Nat) → Stmt → Run Unit
  | 0, _ => throw .exhausted
  | depth + 1, s =>
    match s with
    | .expression value => do let _ ← evaluate loops depth value
    | .print value => do print (← evaluate loops depth value)
    | .var name initializer => do
      let v ← match initializer with
        | none => pure .nil
        | some e => evaluate loops depth e
      define name.lexeme v
    | .block body => block (execute loops depth) body
    | .ite condition thenBranch elseBranch => do
      if (← evaluate loops depth condition).isTruthy then execute loops depth thenBranch
      else
        match elseBranch with
        | none => pure ()
        | some s => execute loops depth s
    | .while condition body =>
      repeatWhile (Value.isTruthy <$> evaluate loops depth condition) (execute loops depth body) loops
    | .function declaration => declareFunction declaration
    | .return _ value => do
      let v ← match value with
        | none => pure .nil
        | some e => evaluate loops depth e
      throw (.returned v)
    | .class name superclass methods => declareClass name superclass methods

end

/-! ## Whole programs -/

/-- What a run ends with when it neither finishes nor fails. -/
inductive Escape where
  | internal (fault : InternalFault)
  | unresolvedSuper
  /-- A `return` outside of any call. -/
  | strayReturn
  | exhausted
deriving DecidableEq, Inhabited, Repr

/-- How the run of a program ends. -/
inductive Outcome where
  | finished
  | failed (error : RuntimeError)
  | escaped (escape : Escape)
deriving DecidableEq, Inhabited, Repr

/-- The outcome of a program that a signal ends. -/
def Signal.outcome : Signal → Outcome
  | .failed error => .failed error
  | .returned _ => .escaped .strayReturn
  | .internal fault => .escaped (.internal fault)
  | .unresolvedSuper => .escaped .unresolvedSuper
  | .exhausted => .escaped .exhausted

/-- Runs the statements of a program in order, up to the first signal. -/
def interpret (loops depth : Nat) (program : List Stmt) (m : Machine) : Outcome × Machine :=
  match program.forM (execute loops depth) m with
  | .ok _ m' => (.finished, m')
  | .error signal m' => (signal.outcome, m')

end Lox
