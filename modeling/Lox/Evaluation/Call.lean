import Lox.Evaluation.Machine

/-!
# Calls

Calling a value, given how to run a statement. A call of a class makes an instance and runs the
initializer on it; a call of an initializer yields the instance, whatever its body returns.
-/

namespace Lox.Run

/-- The environment of a call: the parameters with their arguments, inside the closure. -/
def parameterTable (parameters : List Token) (arguments : List Value) : Table Value :=
  Table.empty.insertAll ((parameters.map Token.lexeme).zip arguments)

/-- Calls a function. -/
def callFunction (execute : Stmt → Run Unit) (f : FunctionId) (arguments : List Value) :
    Run Value := do
  let closure ← ask (·.functionAt f)
  let parameters := closure.declaration.parameters
  let e ← change (·.newEnvironment ⟨parameterTable parameters arguments, some closure.environment⟩)
  let result ← catchReturn (inEnvironment e (closure.declaration.body.forM execute))
  if closure.isInitializer then
    ofInternal (← ask (·.lookUpAt closure.environment 0 "this"))
  else return result

/-- Calls a class: makes an instance and initializes it. -/
def callClass (execute : Stmt → Run Unit) (c : ClassId) (arguments : List Value) : Run Value := do
  let object ← change (·.newInstance c)
  match ← ask (·.method? c initializerName) with
  | none => return .instance object
  | some initializer =>
    let bound ← change (·.bind initializer object)
    let _ ← callFunction execute bound arguments
    return .instance object

def callNative (n : NativeId) (arguments : List Value) : Run Value := do
  match (← ask (·.nativeAt n)).body with
  | .clock => readClock
  | .compute result => return result arguments

/-- Calls a value with any number of arguments. Only a callable value has an effect. -/
def call (execute : Stmt → Run Unit) (callee : Value) (arguments : List Value) : Run Value :=
  match callee with
  | .native n => callNative n arguments
  | .function f => callFunction execute f arguments
  | .class c => callClass execute c arguments
  | _ => return .nil

/-- Calls a value if it can be called with so many arguments; `paren` is where that is reported. -/
def callChecked (execute : Stmt → Run Unit) (paren : Occurrence) (callee : Value)
    (arguments : List Value) : Run Value := do
  match ← ask (·.arity? callee) with
  | none => fail paren .notCallable
  | some arity =>
    if arguments.length = arity then call execute callee arguments
    else fail paren (.wrongArity arity arguments.length)

/-- Reads a property of a value. -/
def property (object : Value) (key : Occurrence) : Run Value := do
  match object with
  | .instance i =>
    match ← ofRuntime (← ask (·.member i key)) with
    | .field value => return value
    | .method f => return .function (← change (·.bind f i))
  | _ => fail key .noProperties

/--
The method of a superclass, bound to the present instance. The instance lies in the environment just
inside the one that holds the superclass.
-/
def superMethod (keyword method : Occurrence) : Run Value := do
  match ← distance? keyword with
  | none => throw .unresolvedSuper
  | some distance =>
    let e ← current
    let superclass ← ofInternal (← ask (·.lookUpAt e distance "super"))
    let object ← ofInternal (← ask (·.lookUpAt e ((distance : Int) - 1) "this"))
    match superclass, object with
    | .class c, .instance i =>
      match ← ask (·.method? c method.name) with
      | none => fail method (.undefinedProperty method.name)
      | some f => return .function (← change (·.bind f i))
    | _, _ => throw (.internal .malformedSuper)

/-- The superclass that a class declaration names. -/
def superclassOf (mention : Occurrence) : Run ClassId := do
  match ← lookUp mention with
  | .class c => return c
  | _ => fail mention .superclassNotClass

/-- Makes the methods of a class, which close over environment `e`. -/
def methodTable (e : EnvironmentId) (methods : List Function) : Run (Table FunctionId) :=
  methods.foldlM (fun table method => do
    let f ← change (·.newFunction ⟨method, e, method.isInitializer⟩)
    return table.insert method.name.lexeme f) .empty

/--
Declares a class. While its superclass is evaluated the name has its old meaning; while its methods
are made it is `nil`.
-/
def declareClass (name : Occurrence) (superclass : Option Occurrence) (methods : List Function) :
    Run Unit := do
  let parent ← superclass.mapM superclassOf
  define name.name .nil
  let e ← current
  let inner ← match parent with
    | none => pure e
    | some c => change (·.newEnvironment ⟨Table.empty.insert "super" (.class c), some e⟩)
  let table ← methodTable inner methods
  let c ← change (·.newClass ⟨name.name, parent, table⟩)
  let holder ← ofRuntime (← ask (·.holder e name))
  defineIn holder name.name (.class c)

end Lox.Run
