import Lox.Number.Binary

/-!
# Tokens

A token is a kind, the text it was read from, the value that the text denotes, and a line.
-/

namespace Lox

/-- The value of a literal. A token that denotes no value carries `nil`. -/
inductive Literal where
  | nil
  | bool (value : Bool)
  | number (value : Number.Double)
  | string (value : String)
deriving DecidableEq, Inhabited, Repr

/-- The kinds of tokens. No text is scanned as an `unknown` kind. -/
inductive TokenKind where
  | leftParen | rightParen | leftBrace | rightBrace
  | comma | dot | minus | plus | semicolon | slash | star
  | bang | bangEqual | equal | equalEqual | greater | greaterEqual | less | lessEqual
  | identifier | string | number
  | kwAnd | kwClass | kwElse | kwFalse | kwFun | kwFor | kwIf | kwNil
  | kwOr | kwPrint | kwReturn | kwSuper | kwThis | kwTrue | kwVar | kwWhile
  | endOfInput
  | unknown (name : String)
deriving DecidableEq, Inhabited, Repr

/-- The name under which a kind is shown. -/
def TokenKind.name : TokenKind → String
  | leftParen => "LEFT_PAREN"
  | rightParen => "RIGHT_PAREN"
  | leftBrace => "LEFT_BRACE"
  | rightBrace => "RIGHT_BRACE"
  | comma => "COMMA"
  | dot => "DOT"
  | minus => "MINUS"
  | plus => "PLUS"
  | semicolon => "SEMICOLON"
  | slash => "SLASH"
  | star => "STAR"
  | bang => "BANG"
  | bangEqual => "BANG_EQUAL"
  | equal => "EQUAL"
  | equalEqual => "EQUAL_EQUAL"
  | greater => "GREATER"
  | greaterEqual => "GREATER_EQUAL"
  | less => "LESS"
  | lessEqual => "LESS_EQUAL"
  | identifier => "IDENTIFIER"
  | string => "STRING"
  | number => "NUMBER"
  | kwAnd => "AND"
  | kwClass => "CLASS"
  | kwElse => "ELSE"
  | kwFalse => "FALSE"
  | kwFun => "FUN"
  | kwFor => "FOR"
  | kwIf => "IF"
  | kwNil => "NIL"
  | kwOr => "OR"
  | kwPrint => "PRINT"
  | kwReturn => "RETURN"
  | kwSuper => "SUPER"
  | kwThis => "THIS"
  | kwTrue => "TRUE"
  | kwVar => "VAR"
  | kwWhile => "WHILE"
  | endOfInput => "EOF"
  | unknown name => name

/-- The kinds that text can have. -/
def TokenKind.known : List TokenKind :=
  [leftParen, rightParen, leftBrace, rightBrace, comma, dot, minus, plus, semicolon, slash, star,
    bang, bangEqual, equal, equalEqual, greater, greaterEqual, less, lessEqual,
    identifier, string, number,
    kwAnd, kwClass, kwElse, kwFalse, kwFun, kwFor, kwIf, kwNil,
    kwOr, kwPrint, kwReturn, kwSuper, kwThis, kwTrue, kwVar, kwWhile, endOfInput]

/-- The kind shown under a name. -/
def TokenKind.ofName (name : String) : TokenKind :=
  (known.find? (·.name == name)).getD (unknown name)

/-- The reserved words. -/
def reservedWords : List (String × TokenKind) :=
  [("and", .kwAnd), ("class", .kwClass), ("else", .kwElse), ("false", .kwFalse),
    ("for", .kwFor), ("fun", .kwFun), ("if", .kwIf), ("nil", .kwNil),
    ("or", .kwOr), ("print", .kwPrint), ("return", .kwReturn), ("super", .kwSuper),
    ("this", .kwThis), ("true", .kwTrue), ("var", .kwVar), ("while", .kwWhile)]

/-- The kind of a word: its own if it is reserved, an identifier if not. -/
def TokenKind.ofWord (word : String) : TokenKind :=
  (reservedWords.lookup word).getD identifier

/--
A token. Lines count from one; they are integers, so that a token made by hand may claim any line.
-/
structure Token where
  kind : TokenKind
  lexeme : String
  literal : Literal
  line : Int
deriving DecidableEq, Inhabited, Repr

/-- A token at its place among all tokens of a session. No two occurrences share a number. -/
structure Occurrence where
  id : Nat
  token : Token
deriving DecidableEq, Inhabited, Repr

/-- The name that occurs. -/
def Occurrence.name (o : Occurrence) : String := o.token.lexeme

instance : Coe Occurrence Token := ⟨Occurrence.token⟩

/-- A token made by hand, which stands in no text of a session, has no number of its own. -/
instance : Coe Token Occurrence := ⟨(⟨0, ·⟩)⟩

/-- The token that closes every token list. -/
def endToken (line : Int) : Token := ⟨.endOfInput, "", .nil, line⟩

end Lox
