import Lox.Heap.Object
import Lox.Scope.Distances

/-!
# The machine

A run works on a heap, a current environment and the list of lines printed so far. It yields a value
or ends with a signal. The combinators of this module are the only places where a signal is caught:
`catchReturn`, where a function is called, and `inEnvironment`, which lets every signal pass.
-/

namespace Lox

/-- Why a step of a run yields no value. -/
inductive Signal where
  | failed (error : RuntimeError)
  /-- A `return` that looks for the call it ends. -/
  | returned (value : Value)
  | internal (fault : InternalFault)
  /-- A `super` for which there is no distance. -/
  | unresolvedSuper
  /-- The run nests too deeply. -/
  | exhausted
deriving Inhabited

structure Machine where
  heap : Heap
  globals : EnvironmentId
  /-- The environment of the statement that is running. -/
  current : EnvironmentId
  distances : Distances
  printed : Array String
  /-- The readings of the clock, in order. -/
  clock : Nat → Float
  /-- The number of readings taken. -/
  readings : Nat

namespace Machine

/-- A machine whose globals hold the native functions and nothing else. -/
def initial (clock : Nat → Float) : Machine :=
  let (globals, heap) := Heap.empty.newEnvironment ⟨.empty, none⟩
  let (native, heap) := heap.newNative ⟨"clock", 0, .clock⟩
  { heap := heap.define globals "clock" (.native native)
    globals, current := globals, distances := .empty, printed := #[], clock, readings := 0 }

instance : Inhabited Machine := ⟨initial fun _ => 0⟩

/-- Adds the distances found by a resolution. -/
def addDistances (m : Machine) (bindings : List Binding) : Machine :=
  { m with distances := m.distances.addAll bindings }

end Machine

abbrev Run := EStateM Signal Machine

namespace Run

/-! ## Ending a run

Nothing here depends on what a run works on.
-/

section Signals

variable {σ α : Type}

/-- Ends the run with a runtime error where a token occurs. -/
def fail (place : Occurrence) (fault : RuntimeFault) : EStateM Signal σ α :=
  throw (.failed ⟨fault, place⟩)

def ofRuntime : Except RuntimeError α → EStateM Signal σ α
  | .ok a => pure a
  | .error e => throw (.failed e)

def ofInternal : Except InternalFault α → EStateM Signal σ α
  | .ok a => pure a
  | .error e => throw (.internal e)

end Signals

/-! ## The heap -/

/-- Reads something off the heap. -/
def ask {α : Type} (f : Heap → α) : Run α := fun m => .ok (f m.heap) m

/-- Changes the heap and yields what the change yields. -/
def change {α : Type} (f : Heap → α × Heap) : Run α := fun m =>
  let (a, heap) := f m.heap
  .ok a { m with heap }

/-- Defines a name in an environment. -/
def defineIn (e : EnvironmentId) (name : String) (value : Value) : Run Unit :=
  change fun h => ((), h.define e name value)

/-! ## Names -/

def current : Run EnvironmentId := fun m => .ok m.current m

def globals : Run EnvironmentId := fun m => .ok m.globals m

/-- Defines a name in the current environment. -/
def define (name : String) (value : Value) : Run Unit := do
  defineIn (← current) name value

/-- The distance of a mention, if it is local. -/
def distance? (mention : Occurrence) : Run (Option Nat) := fun m =>
  .ok (m.distances.find? mention.id) m

/-- The value of a mentioned name: at its distance if it has one, else among the globals. -/
def lookUp (mention : Occurrence) : Run Value := do
  match ← distance? mention with
  | some distance =>
    let e ← current
    ofInternal (← ask (·.lookUpAt e distance mention.name))
  | none =>
    let e ← globals
    ofRuntime (← ask (·.lookUp e mention))

/-- Gives a mentioned name a new value, in the place where `lookUp` looks for it. -/
def assign (mention : Occurrence) (value : Value) : Run Unit := do
  match ← distance? mention with
  | some distance =>
    let e ← current
    let holder ← ofInternal (← ask (·.holderAt e distance mention.name))
    defineIn holder mention.name value
  | none =>
    let e ← globals
    let holder ← ofRuntime (← ask (·.holder e mention))
    defineIn holder mention.name value

/-! ## Output and input -/

def print (value : Value) : Run Unit := fun m =>
  let text := m.heap.display value
  .ok () { m with printed := m.printed.push text }

/-- Takes a reading of the clock. -/
def readClock : Run Value := fun m =>
  .ok (.number (m.clock m.readings)) { m with readings := m.readings + 1 }

/-! ## Control -/

/-- Runs `body` in an environment and comes back to the present one, whatever the outcome. -/
def inEnvironment {α : Type} (e : EnvironmentId) (body : Run α) : Run α := fun m =>
  let saved := m.current
  match body { m with current := e } with
  | .ok a m' => .ok a { m' with current := saved }
  | .error signal m' => .error signal { m' with current := saved }

/-- The value that the body of a function returns: `nil`, if it ends without a `return`. -/
def catchReturn {σ α : Type} (body : EStateM Signal σ α) : EStateM Signal σ Value := fun m =>
  match body m with
  | .ok _ m' => .ok .nil m'
  | .error (.returned value) m' => .ok value m'
  | .error signal m' => .error signal m'

/-- Repeats `body` as long as `condition` yields true, at most `limit` times. -/
def repeatWhile {σ : Type} (condition : EStateM Signal σ Bool) (body : EStateM Signal σ Unit) :
    (limit : Nat) → EStateM Signal σ Unit
  | 0 => throw .exhausted
  | limit + 1 => do
    if ← condition then
      body
      repeatWhile condition body limit

end Run

end Lox
