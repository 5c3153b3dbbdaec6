import Lox.Grammar.Fault

/-!
# Parsers

A parser reads tokens from the front of a list, notes faults, and either yields a result or halts.
Halting at a fault unwinds to the declaration around it; halting because the text nests too deeply
ends the parse. `many` is the one loop that all parsers share.
-/

namespace Lox.Grammar

/-- Why a parser stops without a result. -/
inductive Halt where
  | fault
  | tooDeep
deriving DecidableEq, Inhabited, Repr

structure State where
  /-- The tokens not read yet, without the token that closes the input. -/
  ahead : List Token
  /-- The number of the next token. -/
  position : Nat
  /-- The token that closes the input. -/
  last : Occurrence
  /-- The faults noted so far. -/
  errors : Array ParseError
deriving Inhabited

/-- The token at which the parser stands. -/
def State.current (s : State) : Occurrence :=
  match s.ahead with
  | [] => s.last
  | t :: _ => ⟨s.position, t⟩

/-- The number of tokens not read yet. -/
def State.remaining (s : State) : Nat := s.last.id - s.position

abbrev Parser := EStateM Halt State

/-! ## Reading tokens -/

/-- Whether the input is at its end. -/
def atEnd : Parser Bool := fun s => .ok s.ahead.isEmpty s

/-- Whether the next token is of the given kind. -/
def next (kind : TokenKind) : Parser Bool := fun s =>
  match s.ahead with
  | [] => .ok false s
  | t :: _ => .ok (t.kind == kind) s

/-- Reads the next token if its kind is among the given ones. -/
def accept? (kinds : List TokenKind) : Parser (Option Occurrence) := fun s =>
  match s.ahead with
  | [] => .ok none s
  | t :: rest =>
    if kinds.contains t.kind then
      .ok (some ⟨s.position, t⟩) { s with ahead := rest, position := s.position + 1 }
    else .ok none s

/-- Reads the next token if it is of the given kind, and says whether it was. -/
def accept (kind : TokenKind) : Parser Bool := return (← accept? [kind]).isSome

/-! ## Faults -/

/-- Notes a fault and goes on. -/
def note (fault : ParseFault) (place : Occurrence) : Parser Unit := fun s =>
  .ok () { s with errors := s.errors.push ⟨fault, place⟩ }

/-- Notes a fault at the next token and goes on. -/
def noteHere (fault : ParseFault) : Parser Unit := fun s => note fault s.current s

/-- Notes a fault at the next token and halts. -/
def fail {α : Type} (fault : ParseFault) : Parser α := do
  noteHere fault
  throw .fault

/-- Halts because the input nests too deeply. -/
def tooDeep {α : Type} : Parser α := throw .tooDeep

/-- Reads a token of the given kind. Any other token is a fault. -/
def expect (kind : TokenKind) (fault : ParseFault) : Parser Occurrence := do
  match ← accept? [kind] with
  | some found => return found
  | none => fail fault

/-- Reads a token of the given kind that the tree does not keep. -/
def skip (kind : TokenKind) (fault : ParseFault) : Parser Unit := do
  let _ ← expect kind fault

/-! ## Repetition -/

/-- Repeats a step until it yields nothing. It is told how many results there are already. -/
def manyFrom {α : Type} (step : Nat → Parser (Option α)) :
    (fuel : Nat) → (count : Nat) → (found : List α) → Parser (List α)
  | 0, _, found => return found.reverse
  | fuel + 1, count, found => do
    match ← step count with
    | none => return found.reverse
    | some a => manyFrom step fuel (count + 1) (a :: found)

/--
Repeats a step until it yields nothing. A step that yields something reads a token, so that the number
of remaining tokens bounds the repetition.
-/
def many {α : Type} (step : Nat → Parser (Option α)) : Parser (List α) := fun s =>
  manyFrom step (s.remaining + 1) 0 [] s

/-- The greatest number of parameters or arguments. -/
def maxArguments : Nat := 255

/-- Items with commas between them, at least one. Each item beyond the greatest number is noted. -/
def separated {α : Type} (tooMany : ParseFault) (item : Parser α) : Parser (List α) := do
  let first ← item
  let others ← many fun count => do
    if ← accept .comma then
      if maxArguments ≤ count + 1 then noteHere tooMany
      return some (← item)
    else return none
  return first :: others

/-! ## Recovery -/

/-- Whether a token of this kind begins a statement. -/
def startsStatement : TokenKind → Bool
  | .kwClass | .kwFun | .kwVar | .kwFor | .kwIf | .kwWhile | .kwPrint | .kwReturn => true
  | _ => false

/--
The tokens from the next boundary on, and the number of the first of them. A boundary lies after a
semicolon, before a token that begins a statement, and at the end.
-/
def boundary (previous : TokenKind) : List Token → (position : Nat) → List Token × Nat
  | [], position => ([], position)
  | t :: rest, position =>
    if previous == .semicolon || startsStatement t.kind then (t :: rest, position)
    else boundary t.kind rest (position + 1)

/-- Reads one token and then all tokens up to the next boundary. -/
def State.synchronize (s : State) : State :=
  match s.ahead with
  | [] => s
  | t :: rest =>
    let (ahead, position) := boundary t.kind rest (s.position + 1)
    { s with ahead, position }

/-- Recovers from a fault: yields nothing and goes on at the next boundary. -/
def recovering {α : Type} (p : Parser α) : Parser (Option α) := fun s =>
  match p s with
  | .ok a s' => .ok (some a) s'
  | .error .fault s' => .ok none s'.synchronize
  | .error .tooDeep s' => .error .tooDeep s'

end Lox.Grammar
