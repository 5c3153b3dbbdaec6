import Lox.Failure
import Lox.Heap.Basic

/-!
# Names in environments

A name is looked up either along the chain of enclosing environments or at a fixed distance on it. A
failing access has no result, so it leaves the heap as it is.
-/

namespace Lox.Heap

/-- The value of a name in an environment that holds it. -/
def valueIn (h : Heap) (e : EnvironmentId) (name : String) : Value :=
  ((h.environmentAt e).names.find? name).getD .nil

/-! ## Along the chain -/

/-- The nearest of the first `fuel` environments on the chain that holds the name. -/
def holderWithin (h : Heap) (name : String) : (fuel : Nat) → EnvironmentId → Option EnvironmentId
  | 0, _ => none
  | fuel + 1, e =>
    if (h.environmentAt e).names.contains name then some e
    else
      match (h.environmentAt e).enclosing with
      | none => none
      | some outer => h.holderWithin name fuel outer

/--
The nearest environment on the chain that holds the name. An environment is made after the one that
encloses it, so that no chain is longer than the heap.
-/
def holder? (h : Heap) (e : EnvironmentId) (name : String) : Option EnvironmentId :=
  h.holderWithin name h.environments.size e

/-- The nearest environment that holds a mentioned name. It is an error if there is none. -/
def holder (h : Heap) (e : EnvironmentId) (mention : Occurrence) :
    Except RuntimeError EnvironmentId :=
  match h.holder? e mention.name with
  | some o => .ok o
  | none => .error ⟨.undefinedVariable mention.name, mention⟩

/-- The value of a name on the chain. -/
def lookUp (h : Heap) (e : EnvironmentId) (mention : Occurrence) : Except RuntimeError Value := do
  let o ← h.holder e mention
  return h.valueIn o mention.name

/-- Gives a name on the chain a new value. -/
def assign (h : Heap) (e : EnvironmentId) (mention : Occurrence) (value : Value) :
    Except RuntimeError Heap := do
  let o ← h.holder e mention
  return h.define o mention.name value

/-! ## At a distance -/

/-- The environment that lies so many steps out on the chain. -/
def ancestor? (h : Heap) (e : EnvironmentId) : (distance : Nat) → Option EnvironmentId
  | 0 => some e
  | distance + 1 =>
    match (h.environmentAt e).enclosing with
    | none => none
    | some outer => h.ancestor? outer distance

/-- The environment at a distance. A negative distance is no step. -/
def ancestor (h : Heap) (e : EnvironmentId) (distance : Int) :
    Except InternalFault EnvironmentId :=
  match h.ancestor? e distance.toNat with
  | some found => .ok found
  | none => .error (.noEnvironment distance)

/-- The environment at a distance, if it holds the name. -/
def holderAt (h : Heap) (e : EnvironmentId) (distance : Int) (name : String) :
    Except InternalFault EnvironmentId := do
  let o ← h.ancestor e distance
  if (h.environmentAt o).names.contains name then return o
  else throw (.unresolvedBinding name distance)

/-- The value of a name in the environment at a distance. -/
def lookUpAt (h : Heap) (e : EnvironmentId) (distance : Int) (name : String) :
    Except InternalFault Value := do
  let o ← h.holderAt e distance name
  return h.valueIn o name

/-- Gives a name in the environment at a distance a new value. -/
def assignAt (h : Heap) (e : EnvironmentId) (distance : Int) (name : String) (value : Value) :
    Except InternalFault Heap := do
  let o ← h.holderAt e distance name
  return h.define o name value

end Lox.Heap
