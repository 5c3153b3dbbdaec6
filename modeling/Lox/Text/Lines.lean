/-!
# Lines

Line ends are written in three ways; a text is read with all of them as a newline.
-/

namespace Lox.Text

/-- Turns the remaining text into one with newlines only, in front of which `found` stands reversed. -/
def unifyFrom : List Char → (found : List Char) → List Char
  | [], found => found.reverse
  | '\r' :: '\n' :: rest, found => unifyFrom rest ('\n' :: found)
  | '\r' :: rest, found => unifyFrom rest ('\n' :: found)
  | c :: rest, found => unifyFrom rest (c :: found)

/-- The text with a newline for every line end: a carriage return, a newline, or both in this order. -/
def unifyLineEnds (text : List Char) : List Char := unifyFrom text []

/-- The lines of the remaining text, after the line begun by `line` and the lines `found`, reversed. -/
def linesFrom : List Char → (line : List Char) → (found : List (List Char)) → List (List Char)
  | [], [], found => found.reverse
  | [], line, found => (line.reverse :: found).reverse
  | '\n' :: rest, line, found => linesFrom rest [] (line.reverse :: found)
  | c :: rest, line, found => linesFrom rest (c :: line) found

/-- The lines of a text, without their newlines. Nothing follows a newline at the end. -/
def lines (text : List Char) : List (List Char) := linesFrom text [] []

end Lox.Text
