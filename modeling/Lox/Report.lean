import Lox.Token

/-!
# Reports

A report is what the user is told about a fault: a line, where on the line, and a message. It is
rendered as one line of text.
-/

namespace Lox

/-- How a message names the place of a token. -/
def Token.location (t : Token) : String :=
  if t.kind = .endOfInput then " at end" else " at '" ++ t.lexeme ++ "'"

/-- A fault rendered as a line of text. -/
def diagnosticText (line : Int) (location message : String) : String :=
  "[line " ++ toString line ++ "] Error" ++ location ++ ": " ++ message

inductive Report where
  /-- A fault found before a run. -/
  | static (line : Int) (location message : String)
  /-- The error that ended a run. -/
  | runtime (line : Int) (message : String)
deriving DecidableEq, Inhabited, Repr

def Report.text : Report → String
  | static line location message => diagnosticText line location message
  | runtime line message => diagnosticText line "" message

/-- Lines of text, each with a line end. -/
def textOfLines (lines : List String) : String :=
  lines.foldl (fun text line => text ++ line ++ "\n") ""

end Lox
