import Lox.Number.Text
import Lox.Text.Quoted
import Lox.Token

/-!
# How tokens are shown

One line for a token: its kind, its text and its value, both quoted, and its line.
-/

namespace Lox

/-- The value of a token as it is shown. -/
def Literal.display : Literal → String
  | .nil => "None"
  | .bool true => "True"
  | .bool false => "False"
  | .number x => Number.literalText x
  | .string s => Text.quoted s

/-- The token as it is shown. -/
def Token.display (t : Token) : String :=
  "Token(" ++ t.kind.name ++ ", " ++ Text.quoted t.lexeme ++ ", " ++ t.literal.display ++ ", " ++
    toString t.line ++ ")"

end Lox
