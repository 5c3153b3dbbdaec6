import Lox.Evaluation.Evaluate
import Lox.Proofs.Scope.Place

/-!
# The lexical store

The state of an interpreter that knows nothing of distances. Local names are an immutable map to cells,
which is passed from statement to statement and kept by closures; only the contents of a cell change.
Globals are one table, and objects are what they are on a machine.
-/

namespace Lox.Lexical

structure CellId where
  index : Nat
deriving DecidableEq, Inhabited, Repr

/-- The local names in scope and their cells. Outside of all blocks and functions there are none. -/
inductive Names where
  | global
  | inside (cells : Table CellId)
deriving Inhabited

namespace Names

def find? : Names → String → Option CellId
  | global, _ => none
  | inside cells, name => cells.find? name

/-- The names inside a block or a function. -/
def enter : Names → Names
  | global => inside .empty
  | inside cells => inside cells

/-- The map extended by a name. It shadows an older meaning of the name. -/
def extend : Names → String → CellId → Names
  | global, name, c => inside (Table.empty.insert name c)
  | inside cells, name, c => inside (cells.insert name c)

@[simp] theorem find?_enter (names : Names) (name : String) :
    names.enter.find? name = names.find? name := by
  cases names <;> rfl

theorem find?_extend (names : Names) (name other : String) (c : CellId) :
    (names.extend name c).find? other = if name = other then some c else names.find? other := by
  cases names <;> simp [extend, find?, Table.find?_insert]

@[simp] theorem enter_ne_global (names : Names) : names.enter ≠ global := by
  cases names <;> simp [enter]

@[simp] theorem extend_ne_global (names : Names) (name : String) (c : CellId) :
    names.extend name c ≠ global := by
  cases names <;> simp [extend]

end Names

/-- A function declaration with the names that were in scope at it. -/
structure Closure where
  declaration : Function
  names : Names
  isInitializer : Bool
deriving Inhabited

structure Store where
  cells : Array Value
  globals : Table Value
  natives : Array Native
  functions : Array Closure
  classes : Array Class
  instances : Array Instance
  printed : Array String
  clock : Nat → Float
  readings : Nat

namespace Store

/-- A store whose globals are the native functions. -/
def initial (clock : Nat → Float) : Store :=
  { cells := #[], globals := Table.empty.insert "clock" (.native ⟨0⟩)
    natives := #[⟨"clock", 0, .clock⟩], functions := #[], classes := #[], instances := #[]
    printed := #[], clock, readings := 0 }

def cellAt (s : Store) (c : CellId) : Value := s.cells.getD c.index .nil

def functionAt (s : Store) (f : FunctionId) : Closure := s.functions.getD f.index default

/-- The objects as a heap without environments, for the operations that look at no environment. -/
def objects (s : Store) : Heap :=
  { environments := #[]
    natives := s.natives
    functions := s.functions.map fun f => ⟨f.declaration, default, f.isInitializer⟩
    classes := s.classes
    instances := s.instances }

end Store

abbrev LexicalRun := EStateM Signal Store

namespace LexicalRun

def ask {α : Type} (f : Store → α) : LexicalRun α := fun s => .ok (f s) s

/-! ## Names -/

def newCell (value : Value) : LexicalRun CellId := fun s =>
  .ok ⟨s.cells.size⟩ { s with cells := s.cells.push value }

def setCell (c : CellId) (value : Value) : LexicalRun Unit := fun s =>
  .ok () { s with cells := s.cells.setIfInBounds c.index value }

def defineGlobal (name : String) (value : Value) : LexicalRun Unit := fun s =>
  .ok () { s with globals := s.globals.insert name value }

/-- Extends the map by a name with a new cell. -/
def bindName (names : Names) (name : String) (value : Value) : LexicalRun Names :=
  return names.extend name (← newCell value)

/-- Declares a name: as a global, or in a new cell. -/
def declare (names : Names) (name : String) (value : Value) : LexicalRun Names :=
  match names with
  | .global => do
    defineGlobal name value
    return .global
  | .inside _ => bindName names name value

/-- The value of a name: that of its cell if it is local, else that of a global of this name now. -/
def lookUp (names : Names) (mention : Occurrence) : LexicalRun Value := do
  match names.find? mention.name with
  | some c => ask (·.cellAt c)
  | none =>
    match ← ask (·.globals.find? mention.name) with
    | some value => return value
    | none => Run.fail mention (.undefinedVariable mention.name)

/-- Gives a name a new value, in the place where `lookUp` looks for it. -/
def assign (names : Names) (mention : Occurrence) (value : Value) : LexicalRun Unit := do
  match names.find? mention.name with
  | some c => setCell c value
  | none =>
    if ← ask (·.globals.contains mention.name) then defineGlobal mention.name value
    else Run.fail mention (.undefinedVariable mention.name)

/-- Gives a name that has been declared its value. -/
def complete (names : Names) (name : String) (value : Value) : LexicalRun Unit :=
  match names.find? name with
  | some c => setCell c value
  | none => defineGlobal name value

section Access

variable {names : Names} {mention : Occurrence} {s : Store}

theorem lookUp_cell {c : CellId} (resolved : names.find? mention.name = some c) :
    lookUp names mention s = .ok (s.cellAt c) s := by
  rw [lookUp, resolved]
  rfl

theorem lookUp_global (unresolved : names.find? mention.name = none) :
    lookUp names mention s =
      match s.globals.find? mention.name with
      | some value => .ok value s
      | none => Run.fail mention (.undefinedVariable mention.name) s := by
  rw [lookUp, unresolved]
  simp only [bind, EStateM.bind, ask]
  cases s.globals.find? mention.name <;> rfl

theorem assign_cell {c : CellId} (resolved : names.find? mention.name = some c) (value : Value) :
    assign names mention value s =
      .ok () { s with cells := s.cells.setIfInBounds c.index value } := by
  rw [assign, resolved]
  rfl

theorem assign_global (unresolved : names.find? mention.name = none) (value : Value) :
    assign names mention value s =
      if s.globals.contains mention.name then
        .ok () { s with globals := s.globals.insert mention.name value }
      else Run.fail mention (.undefinedVariable mention.name) s := by
  rw [assign, unresolved]
  simp only [bind, EStateM.bind, ask]
  cases s.globals.contains mention.name <;> rfl

end Access

/-! ## Objects -/

def newFunction (f : Closure) : LexicalRun FunctionId := fun s =>
  .ok ⟨s.functions.size⟩ { s with functions := s.functions.push f }

def newClass (c : Class) : LexicalRun ClassId := fun s =>
  .ok ⟨s.classes.size⟩ { s with classes := s.classes.push c }

def newInstance (c : ClassId) : LexicalRun InstanceId := fun s =>
  .ok ⟨s.instances.size⟩ { s with instances := s.instances.push ⟨c, .empty⟩ }

def setField (i : InstanceId) (name : String) (value : Value) : LexicalRun Unit := fun s =>
  .ok () { s with
    instances := s.instances.modify i.index fun object =>
      { object with fields := object.fields.insert name value } }

/-! ## Output and input -/

def print (value : Value) : LexicalRun Unit := fun s =>
  .ok () { s with printed := s.printed.push (s.objects.display value) }

def readClock : LexicalRun Value := fun s =>
  .ok (.number (s.clock s.readings)) { s with readings := s.readings + 1 }

end LexicalRun

end Lox.Lexical
