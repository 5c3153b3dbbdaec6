import Lox.Number.Text
import Lox.Syntax
import Lox.Table

/-!
# Values and the heap

Values that have an identity are handles into a heap. The heap only grows: objects are added at the
end of an array, environments gain names, instances gain fields, and all else stays as it was made.
-/

namespace Lox

/-! ## Handles -/

structure EnvironmentId where
  index : Nat
deriving DecidableEq, Inhabited, Repr

structure NativeId where
  index : Nat
deriving DecidableEq, Inhabited, Repr

structure FunctionId where
  index : Nat
deriving DecidableEq, Inhabited, Repr

structure ClassId where
  index : Nat
deriving DecidableEq, Inhabited, Repr

structure InstanceId where
  index : Nat
deriving DecidableEq, Inhabited, Repr

/-! ## Values -/

inductive Value where
  | nil
  | bool (value : Bool)
  | number (value : Float)
  | string (value : String)
  | native (id : NativeId)
  | function (id : FunctionId)
  | class (id : ClassId)
  | instance (id : InstanceId)
deriving Inhabited

namespace Value

def ofLiteral : Literal → Value
  | .nil => .nil
  | .bool b => .bool b
  | .number x => .number x.toFloat
  | .string s => .string s

/-- Everything but `nil` and `false` counts as true. -/
def isTruthy : Value → Bool
  | nil => false
  | bool b => b
  | _ => true

/--
Equality as a program sees it. Values of different kinds differ, numbers compare as numbers, and
objects are equal only to themselves.
-/
def equals : Value → Value → Bool
  | nil, nil => true
  | bool a, bool b => a == b
  | number a, number b => a == b
  | string a, string b => a == b
  | native a, native b => a == b
  | function a, function b => a == b
  | .class a, .class b => a == b
  | .instance a, .instance b => a == b
  | _, _ => false

end Value

/-! ## Objects -/

/-- A scope at run time: the names defined in it, and the scope around it. -/
structure Environment where
  names : Table Value
  enclosing : Option EnvironmentId
deriving Inhabited

/-- What a native function does with its arguments. -/
inductive NativeBody where
  /-- Reads the clock. -/
  | clock
  | compute (result : List Value → Value)

instance : Inhabited NativeBody := ⟨.clock⟩

structure Native where
  name : String
  arity : Nat
  body : NativeBody
deriving Inhabited

/-- A function declaration with the environment that it closes over. -/
structure Closure where
  declaration : Function
  environment : EnvironmentId
  isInitializer : Bool
deriving Inhabited

structure Class where
  name : String
  superclass : Option ClassId
  methods : Table FunctionId
deriving Inhabited

structure Instance where
  ofClass : ClassId
  fields : Table Value
deriving Inhabited

structure Heap where
  environments : Array Environment
  natives : Array Native
  functions : Array Closure
  classes : Array Class
  instances : Array Instance
deriving Inhabited

namespace Heap

def empty : Heap := ⟨#[], #[], #[], #[], #[]⟩

/-! ## Reading

A handle that no allocation has given reads as an empty object. -/

def environmentAt (h : Heap) (e : EnvironmentId) : Environment :=
  h.environments.getD e.index default

def nativeAt (h : Heap) (n : NativeId) : Native := h.natives.getD n.index default

def functionAt (h : Heap) (f : FunctionId) : Closure := h.functions.getD f.index default

def classAt (h : Heap) (c : ClassId) : Class := h.classes.getD c.index default

def instanceAt (h : Heap) (i : InstanceId) : Instance := h.instances.getD i.index default

/-! ## Allocation -/

def newEnvironment (h : Heap) (e : Environment) : EnvironmentId × Heap :=
  (⟨h.environments.size⟩, { h with environments := h.environments.push e })

def newNative (h : Heap) (n : Native) : NativeId × Heap :=
  (⟨h.natives.size⟩, { h with natives := h.natives.push n })

def newFunction (h : Heap) (f : Closure) : FunctionId × Heap :=
  (⟨h.functions.size⟩, { h with functions := h.functions.push f })

def newClass (h : Heap) (c : Class) : ClassId × Heap :=
  (⟨h.classes.size⟩, { h with classes := h.classes.push c })

def newInstance (h : Heap) (c : ClassId) : InstanceId × Heap :=
  (⟨h.instances.size⟩, { h with instances := h.instances.push ⟨c, .empty⟩ })

/-! ## Update -/

/-- Defines a name in an environment; a name that is there already gets the new value. -/
def define (h : Heap) (e : EnvironmentId) (name : String) (value : Value) : Heap :=
  { h with
    environments := h.environments.modify e.index fun env =>
      { env with names := env.names.insert name value } }

/-- Gives a field of an instance a value. -/
def setField (h : Heap) (i : InstanceId) (name : String) (value : Value) : Heap :=
  { h with
    instances := h.instances.modify i.index fun object =>
      { object with fields := object.fields.insert name value } }

/-! ## Text -/

/-- The text that a program prints for a value. -/
def display (h : Heap) : Value → String
  | .nil => "nil"
  | .bool b => if b then "true" else "false"
  | .number x => Number.text (.ofFloat x)
  | .string s => s
  | .native _ => "<native fn>"
  | .function f => "<fn " ++ (h.functionAt f).declaration.name.lexeme ++ ">"
  | .class c => (h.classAt c).name
  | .instance i => (h.classAt (h.instanceAt i).ofClass).name ++ " instance"

end Heap

end Lox
