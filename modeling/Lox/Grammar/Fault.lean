import Lox.Token

/-!
# Faults of grammar

What can be wrong with the order of tokens. Most faults end the declaration they occur in; three are
only noted (`ParseFault.raised`).
-/

namespace Lox

/-- What a function declaration is called in a message. -/
inductive FunctionForm where
  | function
  | method
deriving DecidableEq, Inhabited, Repr

def FunctionForm.text : FunctionForm → String
  | function => "function"
  | method => "method"

inductive ParseFault where
  | noExpression
  | noClassName
  | noSuperclassName
  | noClassBody
  | noClassEnd
  | noFunctionName (form : FunctionForm)
  | noParameters (form : FunctionForm)
  | noParameterName
  | noParametersEnd
  | noFunctionBody (form : FunctionForm)
  | noVariableName
  | noVariableEnd
  | noForClauses
  | noForConditionEnd
  | noForClausesEnd
  | noIfCondition
  | noIfConditionEnd
  | noPrintEnd
  | noReturnEnd
  | noWhileCondition
  | noWhileConditionEnd
  | noBlockEnd
  | noExpressionEnd
  | noPropertyName
  | noArgumentsEnd
  | noSuperDot
  | noSuperMethod
  | noGroupingEnd
  | invalidTarget
  | tooManyParameters
  | tooManyArguments
deriving DecidableEq, Inhabited, Repr

namespace ParseFault

/-- Whether the fault ends the declaration in which it occurs. -/
def raised : ParseFault → Bool
  | invalidTarget | tooManyParameters | tooManyArguments => false
  | _ => true

def message : ParseFault → String
  | noExpression => "Expect expression."
  | noClassName => "Expect class name."
  | noSuperclassName => "Expect superclass name."
  | noClassBody => "Expect '\x7b' before class body."
  | noClassEnd => "Expect '\x7d' after class body."
  | noFunctionName form => "Expect " ++ form.text ++ " name."
  | noParameters form => "Expect '(' after " ++ form.text ++ " name."
  | noParameterName => "Expect parameter name."
  | noParametersEnd => "Expect ')' after parameters."
  | noFunctionBody form => "Expect '\x7b' before " ++ form.text ++ " body."
  | noVariableName => "Expect variable name."
  | noVariableEnd => "Expect ';' after variable declaration."
  | noForClauses => "Expect '(' after 'for'."
  | noForConditionEnd => "Expect ';' after loop condition."
  | noForClausesEnd => "Expect ')' after for clauses."
  | noIfCondition => "Expect '(' after 'if'."
  | noIfConditionEnd => "Expect ')' after if condition."
  | noPrintEnd => "Expect ';' after value."
  | noReturnEnd => "Expect ';' after return value."
  | noWhileCondition => "Expect '(' after 'while'."
  | noWhileConditionEnd => "Expect ')' after condition."
  | noBlockEnd => "Expect '\x7d' after block."
  | noExpressionEnd => "Expect ';' after expression."
  | noPropertyName => "Expect property name after '.'."
  | noArgumentsEnd => "Expect ')' after arguments."
  | noSuperDot => "Expect '.' after 'super'."
  | noSuperMethod => "Expect superclass method name."
  | noGroupingEnd => "Expect ')' after expression."
  | invalidTarget => "Invalid assignment target."
  | tooManyParameters => "Can't have more than 255 parameters."
  | tooManyArguments => "Can't have more than 255 arguments."

end ParseFault

/-- A fault and the token at which it was found. -/
structure ParseError where
  fault : ParseFault
  place : Occurrence
deriving DecidableEq, Inhabited, Repr

end Lox
