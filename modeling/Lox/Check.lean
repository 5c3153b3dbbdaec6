import Lox.Grammar.Statement
import Lox.Report
import Lox.Scan
import Lox.Scope.Resolution
import Lox.Syntax.Height

/-!
# Static checks

`check?` gives all faults that are found without running a program. Faults of scope are looked for only
if the text and the grammar are right.
-/

namespace Lox

/-- How far programs may nest, and how long they may run. -/
structure Limits where
  /-- The levels of nesting that the parser follows. -/
  nesting : Nat
  /-- The height of the trees that are resolved. -/
  height : Nat
  /-- The nested steps of a run. -/
  depth : Nat
  /-- The repetitions of a loop. -/
  loops : Nat
deriving DecidableEq, Inhabited, Repr

/-- Limits that leave room for some thousand nested calls, and for loops without end in practice. -/
def Limits.standard : Limits :=
  { nesting := 19900, height := 19900, depth := 19900, loops := Nat.pow 10 18 }

/-! ## Static errors -/

def ScanFault.message : ScanFault → String
  | unexpectedCharacter => "Unexpected character."
  | unterminatedString => "Unterminated string."

/-- A fault found before a run. -/
inductive StaticError where
  | scan (error : ScanError)
  | parse (error : ParseError)
  | scope (error : ScopeError)
deriving DecidableEq, Inhabited, Repr

namespace StaticError

def line : StaticError → Int
  | scan e => e.line
  | parse e => e.place.token.line
  | scope e => e.token.line

def location : StaticError → String
  | scan _ => ""
  | parse e => e.place.token.location
  | scope e => e.token.location

def message : StaticError → String
  | scan e => e.fault.message
  | parse e => e.fault.message
  | scope e => e.fault.message

def report (e : StaticError) : Report := .static e.line e.location e.message

def text (e : StaticError) : String := e.report.text

end StaticError

/-- The errors of the first two phases, those of the scan first. -/
def syntaxErrors (s : Scan) (p : Parse) : List StaticError :=
  s.errors.map .scan ++ p.errors.map .parse

/-- Resolves a program, unless it is higher than `height`. -/
def resolve? (height : Nat) (program : List Stmt) : Option Resolution :=
  if Stmt.allFit program height then some (resolve program) else none

/-- All static errors of a source text. There is no answer if it nests too deeply. -/
def check? (limits : Limits) (source : String) : Option (List StaticError) := do
  let scanned := scan source
  let parsed ← parse? limits.nesting 0 scanned.tokens
  let errors := syntaxErrors scanned parsed
  if errors.isEmpty then
    let resolution ← resolve? limits.height parsed.statements
    return resolution.errors.map .scope
  else return errors

end Lox
