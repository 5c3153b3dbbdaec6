import Lox.Token

/-!
# Lexemes

`cut` cuts the longest lexeme off the front of a text, and `segments` cuts a whole text into lexemes.
Blanks, comments and faulty text are segments too: the segments of a text, put together again, are the
text. The line is counted on the way, where a line end is passed.
-/

namespace Lox

/-! ## Character classes -/

def isDigit (c : Char) : Bool := '0' ≤ c && c ≤ '9'

def isLetter (c : Char) : Bool := ('a' ≤ c && c ≤ 'z') || ('A' ≤ c && c ≤ 'Z') || c == '_'

def isWordPart (c : Char) : Bool := isLetter c || isDigit c

def isBlank (c : Char) : Bool := c == ' ' || c == '\t' || c == '\r' || c == '\n'

/-- The kind of the tokens that consist of one character and start no longer token. -/
def punctuation? : Char → Option TokenKind
  | '(' => some .leftParen
  | ')' => some .rightParen
  | '{' => some .leftBrace
  | '}' => some .rightBrace
  | ',' => some .comma
  | '.' => some .dot
  | '-' => some .minus
  | '+' => some .plus
  | ';' => some .semicolon
  | '*' => some .star
  | _ => none

/-- The kinds of the operators that may be followed by `=`: alone, and with it. -/
def comparison? : Char → Option (TokenKind × TokenKind)
  | '!' => some (.bang, .bangEqual)
  | '=' => some (.equal, .equalEqual)
  | '<' => some (.less, .lessEqual)
  | '>' => some (.greater, .greaterEqual)
  | _ => none

/-! ## Segments -/

/-- What a segment of text stands for. -/
inductive Content where
  | token (kind : TokenKind) (literal : Literal)
  /-- A blank or a comment. -/
  | layout
  /-- A character that starts no lexeme. -/
  | unexpected
  /-- A string without a closing quote. It extends to the end of the text. -/
  | unterminated
deriving DecidableEq, Inhabited, Repr

/-- A piece of text, what it stands for, and the line that is reached at its end. -/
structure Segment where
  content : Content
  text : List Char
  line : Nat
deriving DecidableEq, Inhabited, Repr

/-- The number that a list of decimal digits denotes. -/
def digitsValue (digits : List Char) : Nat :=
  digits.foldl (fun value c => 10 * value + (c.toNat - '0'.toNat)) 0

/-- The value of a number with the given digits before and after the point. -/
def numberValue (whole fraction : List Char) : Number.Double :=
  Number.nearest (digitsValue (whole ++ fraction)) (Nat.pow 10 fraction.length)

/--
Cuts a number off a text that starts with a digit. A point belongs to the number only if a digit
follows it.
-/
def cutNumber (cs : List Char) : Content × List Char × List Char :=
  let (whole, rest) := cs.span isDigit
  match rest with
  | '.' :: d :: rest' =>
    if isDigit d then
      let (fraction, rest'') := (d :: rest').span isDigit
      (.token .number (.number (numberValue whole fraction)), whole ++ '.' :: fraction, rest'')
    else (.token .number (.number (numberValue whole [])), whole, rest)
  | _ => (.token .number (.number (numberValue whole [])), whole, rest)

/--
Goes on inside a string up to its closing quote. Every line end on the way adds a line; `body` is what has
been passed, reversed.
-/
def stringFrom (line : Nat) (body : List Char) : List Char → Nat × List Char × List Char
  | [] => (line, body.reverse, [])
  | c :: cs =>
    if c == '"' then (line, body.reverse, c :: cs)
    else stringFrom (if c == '\n' then line + 1 else line) (c :: body) cs

/-- Cuts a string off a text, given what follows its opening quote. -/
def cutString (line : Nat) (cs : List Char) : Nat × Content × List Char × List Char :=
  let (line', body, rest) := stringFrom line [] cs
  match rest with
  | quote :: rest' =>
    (line', .token .string (.string (String.ofList body)), '"' :: body ++ [quote], rest')
  | [] => (line', .unterminated, '"' :: body, [])

/--
Cuts the longest lexeme off the text `c :: cs`: the line that is reached then, the content of the lexeme,
its text and the remaining text. A line end between lexemes adds a line, and so do those inside a string;
a comment leaves the end of its line behind.
-/
def cut (line : Nat) (c : Char) (cs : List Char) : Nat × Content × List Char × List Char :=
  match punctuation? c, comparison? c with
  | some kind, _ => (line, .token kind .nil, [c], cs)
  | none, some (alone, withEqual) =>
    match cs with
    | '=' :: rest => (line, .token withEqual .nil, [c, '='], rest)
    | _ => (line, .token alone .nil, [c], cs)
  | none, none =>
    if c == '/' then
      match cs with
      | '/' :: rest =>
        let (comment, rest') := rest.span (· != '\n')
        (line, .layout, '/' :: '/' :: comment, rest')
      | _ => (line, .token .slash .nil, [c], cs)
    else if isBlank c then (if c == '\n' then line + 1 else line, .layout, [c], cs)
    else if c == '"' then cutString line cs
    else if isDigit c then (line, cutNumber (c :: cs))
    else if isLetter c then
      let (word, rest) := (c :: cs).span isWordPart
      (line, .token (.ofWord (String.ofList word)) .nil, word, rest)
    else (line, .unexpected, [c], cs)

/-- Cuts at most `fuel` segments off a text that starts on a line, the last one first. -/
def segmentsFrom : (fuel : Nat) → (line : Nat) → List Char → List Segment → List Segment
  | 0, _, _, found => found
  | _, _, [], found => found
  | fuel + 1, line, c :: cs, found =>
    let (line', content, text, rest) := cut line c cs
    segmentsFrom fuel line' rest (⟨content, text, line'⟩ :: found)

/-- The segments of a text, from left to right. Each takes at least one character. -/
def segments (text : List Char) : List Segment :=
  (segmentsFrom text.length 1 text []).reverse

/-- The line that is reached after the segments of a text. -/
def lastLine (found : List Segment) : Nat := (found.getLast?.map Segment.line).getD 1

end Lox
