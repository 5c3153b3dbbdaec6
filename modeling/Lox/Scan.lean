import Lox.Lexeme

/-!
# Scanning

`scan` gives the tokens of a source text, closed by an end-of-input token, and the faults found on
the way. A fault does not stop the scan; the faulty text gives no token.
-/

namespace Lox

/-- A fault in a text that keeps part of it from being scanned. -/
inductive ScanFault where
  | unexpectedCharacter
  | unterminatedString
deriving DecidableEq, Inhabited, Repr

/-- A fault and the line that is reached where it is found. -/
structure ScanError where
  fault : ScanFault
  line : Int
deriving DecidableEq, Inhabited, Repr

/-- The token that a segment gives, if any. -/
def Segment.token? (s : Segment) : Option Token :=
  match s.content with
  | .token kind literal => some ⟨kind, String.ofList s.text, literal, s.line⟩
  | _ => none

/-- The fault that a segment reports, if any. -/
def Segment.error? (s : Segment) : Option ScanError :=
  match s.content with
  | .unexpected => some ⟨.unexpectedCharacter, s.line⟩
  | .unterminated => some ⟨.unterminatedString, s.line⟩
  | _ => none

/-- The result of scanning. -/
structure Scan where
  tokens : List Token
  errors : List ScanError
deriving DecidableEq, Inhabited, Repr

/-- Scans a source text. -/
def scan (source : String) : Scan :=
  let found := segments source.toList
  { tokens := found.filterMap Segment.token? ++ [endToken (lastLine found)]
    errors := found.filterMap Segment.error? }

end Lox
