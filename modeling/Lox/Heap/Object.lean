import Lox.Heap.Environment

/-!
# Classes and instances

Methods are looked up along the chain of superclasses. Reading a method through an instance binds it:
the bound function closes over an environment in which `this` is the instance.
-/

namespace Lox.Heap

/-- The method of the first class that has it among the first `fuel` on the chain. -/
def methodWithin (h : Heap) (name : String) : (fuel : Nat) → ClassId → Option FunctionId
  | 0, _ => none
  | fuel + 1, c =>
    match (h.classAt c).methods.find? name with
    | some method => some method
    | none =>
      match (h.classAt c).superclass with
      | none => none
      | some parent => h.methodWithin name fuel parent

/--
The method of a class or of the nearest superclass that has it. A class is made after its superclass,
so that no chain is longer than the heap.
-/
def method? (h : Heap) (c : ClassId) (name : String) : Option FunctionId :=
  h.methodWithin name h.classes.size c

/-- The function that behaves like `f` with `this` bound to an instance. -/
def bind (h : Heap) (f : FunctionId) (i : InstanceId) : FunctionId × Heap :=
  let closure := h.functionAt f
  let (e, h) := h.newEnvironment ⟨Table.empty.insert "this" (.instance i), some closure.environment⟩
  h.newFunction { closure with environment := e }

/-- What a property of an instance is: a field of its own, or a method of its class. -/
inductive Member where
  | field (value : Value)
  | method (f : FunctionId)
deriving Inhabited

/-- The property of a name: a field if there is one, else a method. -/
def member (h : Heap) (i : InstanceId) (key : Occurrence) : Except RuntimeError Member :=
  match (h.instanceAt i).fields.find? key.name with
  | some value => .ok (.field value)
  | none =>
    match h.method? (h.instanceAt i).ofClass key.name with
    | some f => .ok (.method f)
    | none => .error ⟨.undefinedProperty key.name, key⟩

/-- The value of a property. A method is bound each time it is read. -/
def property (h : Heap) (i : InstanceId) (key : Occurrence) :
    Except RuntimeError (Value × Heap) := do
  match ← h.member i key with
  | .field value => return (value, h)
  | .method f =>
    let (bound, h) := h.bind f i
    return (.function bound, h)

/-- The number of arguments of a call of a class: that of its initializer. -/
def classArity (h : Heap) (c : ClassId) : Nat :=
  match h.method? c initializerName with
  | some f => (h.functionAt f).declaration.arity
  | none => 0

/-- The number of arguments of a call, if the value can be called. -/
def arity? (h : Heap) : Value → Option Nat
  | .native n => some (h.nativeAt n).arity
  | .function f => some (h.functionAt f).declaration.arity
  | .class c => some (h.classArity c)
  | _ => none

end Lox.Heap
