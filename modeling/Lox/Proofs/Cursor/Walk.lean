import Lox.Grammar.Statement

/-!
# Parsing by index

A parser can also keep the whole token list and an index into it. A walk reads the token at the index
or the one before it, and nothing else; a read outside of the list ends it. A walk also keeps a log: each
index it came to, and each declaration that it finished.
-/

namespace Lox

/-- A declaration that a walk has finished, with or without a result. -/
structure Attempt where
  /-- The index at which it began. -/
  first : Nat
  /-- The index at which the walk went on. -/
  last : Nat
  /-- The number of faults noted in between. -/
  noted : Nat
  /-- The fault that ended it. Without one it had a result. -/
  raised? : Option ParseError
deriving DecidableEq, Inhabited, Repr

structure Cursor where
  /-- All tokens, whatever they are. -/
  tokens : List Token
  /-- The number of the first token. -/
  start : Nat
  /-- The index of the next token. -/
  position : Nat
  /-- The faults noted so far. -/
  errors : List ParseError
  /-- All indices so far, from the first one on. -/
  visited : List Nat
  /-- The declarations finished so far. One that contains others comes after them. -/
  attempts : List Attempt
deriving Inhabited

namespace Cursor

/-- Why a walk stops without a result. -/
inductive Stop where
  | raised (error : ParseError)
  | tooDeep
  /-- It read outside of the token list. -/
  | astray
  /-- A loop made more rounds than there are tokens. -/
  | endless
deriving DecidableEq, Inhabited, Repr

abbrev Walk := EStateM Stop Cursor

/-! ## Reading tokens -/

/-- The token at an index. -/
def look (index : Nat) : Walk Occurrence := fun c =>
  match c.tokens[index]? with
  | some t => .ok ⟨c.start + index, t⟩ c
  | none => .error .astray c

def current : Walk Occurrence := fun c => look c.position c

/-- The token before the next one. Before the first token there is none. -/
def previous : Walk Occurrence := fun c =>
  match c.position with
  | 0 => .error .astray c
  | index + 1 => look index c

def atEnd : Walk Bool := return (← current).token.kind == .endOfInput

/-- Whether the next token is of the given kind. No kind is found at the end. -/
def next (kind : TokenKind) : Walk Bool := do
  if ← atEnd then return false
  return (← current).token.kind == kind

/-- Goes on to the next index. -/
def step : Walk Unit :=
  modify fun c => { c with position := c.position + 1, visited := c.visited ++ [c.position + 1] }

/-- Goes on unless at the end, and yields the token that then lies behind. -/
def advance : Walk Occurrence := do
  unless ← atEnd do step
  previous

/-- Reads the next token if its kind is among the given ones, which are tried in turn. -/
def accept? : (kinds : List TokenKind) → Walk (Option Occurrence)
  | [] => return none
  | kind :: kinds => do
    if ← next kind then return some (← advance)
    accept? kinds

def accept (kind : TokenKind) : Walk Bool := return (← accept? [kind]).isSome

/-! ## Faults -/

def note (fault : ParseFault) (place : Occurrence) : Walk Unit :=
  modify fun c => { c with errors := c.errors ++ [⟨fault, place⟩] }

def noteHere (fault : ParseFault) : Walk Unit := do note fault (← current)

/-- Notes a fault at the next token and raises it. -/
def fail {α : Type} (fault : ParseFault) : Walk α := do
  let place ← current
  note fault place
  throw (.raised ⟨fault, place⟩)

def tooDeep {α : Type} : Walk α := throw .tooDeep

def expect (kind : TokenKind) (fault : ParseFault) : Walk Occurrence := do
  match ← accept? [kind] with
  | some found => return found
  | none => fail fault

def skip (kind : TokenKind) (fault : ParseFault) : Walk Unit := do
  let _ ← expect kind fault

/-! ## Repetition -/

/-- Repeats a step until it yields nothing. A loop that has used up its rounds is endless. -/
def manyFrom {α : Type} (step : Nat → Walk (Option α)) :
    (rounds : Nat) → (count : Nat) → (found : List α) → Walk (List α)
  | 0, _, _ => throw .endless
  | rounds + 1, count, found => do
    match ← step count with
    | none => return found.reverse
    | some a => manyFrom step rounds (count + 1) (a :: found)

/-- Repeats a step until it yields nothing, at most once for each token and once at the end. -/
def many {α : Type} (step : Nat → Walk (Option α)) : Walk (List α) := fun c =>
  manyFrom step (c.tokens.length + 1) 0 [] c

/-! ## Recovery -/

/-- Goes on until a semicolon lies behind or a token that begins a statement is next. -/
def seek : (rounds : Nat) → Walk Unit
  | 0 => throw .endless
  | rounds + 1 => do
    if ← atEnd then return
    if (← previous).token.kind == .semicolon then return
    if Grammar.startsStatement (← current).token.kind then return
    let _ ← advance
    seek rounds

/-- Goes on by one token in any case, and then to the next boundary. -/
def synchronize : Walk Unit := do
  let _ ← advance
  fun c => seek (c.tokens.length + 1) c

/-- A declaration that began at `before` is finished. -/
def finish (before : Cursor) (raised? : Option ParseError) : Walk Unit :=
  modify fun c => { c with
    attempts := c.attempts ++
      [⟨before.position, c.position, c.errors.length - before.errors.length, raised?⟩] }

/--
A declaration. A fault that is raised in it and not caught within it ends it: it yields nothing, and the
walk goes on at the next boundary. No other reason to stop is caught.
-/
def recovering {α : Type} (p : Walk α) : Walk (Option α) := fun c =>
  match p c with
  | .ok a c' => (do finish c none; return some a : Walk (Option α)) c'
  | .error (.raised e) c' => (do synchronize; finish c (some e); return none : Walk (Option α)) c'
  | .error stop c' => .error stop c'

end Cursor

end Lox
