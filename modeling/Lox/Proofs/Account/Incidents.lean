import Lox.Evaluation.Evaluate
import Lox.Proofs.Scope.Place

/-!
# Incidents of a run

A noted run does what a run does and keeps an account of it. What may be told of a run is an
incident; a scribe decides of which incidents an account tells, and what it notes of them. The
account is never read, so a run goes the same way with and without it (`Account/Erasure`).
-/

namespace Lox

/-- What the environment of a closure itself, none around it, holds as `this`. -/
def Heap.receiver? (h : Heap) (closure : Closure) : Option Value :=
  (h.environmentAt closure.environment).names.find? "this"

/-- A call of a function, as it begins. -/
structure Invocation where
  function : FunctionId
  closure : Closure
  /-- What the closure is bound to. -/
  receiver : Option Value
  /-- The environment of the parameters. -/
  frame : EnvironmentId

inductive Incident where
  /-- An occurrence is about to be looked up. -/
  | mention (form : MentionForm) (mention : Occurrence)
  /-- A class declaration made a class whose methods close over `inner`. -/
  | declared (text : ClassText) (parent : Option ClassId) (inner : EnvironmentId) (made : ClassId)
  /-- A method was bound to an instance, which made a function. -/
  | bound (method : FunctionId) (object : InstanceId) (made : FunctionId)
  /-- A function was called, and its parameters have just got the arguments. -/
  | called (call : Invocation) (arguments : List Value)
  /-- A `return` statement ends, with this value. -/
  | raised (statement : Stmt) (value : Value)
  /-- The call of a function ends a `return`. -/
  | caught (call : Invocation) (value : Value)
  /-- The call yields the value. -/
  | completed (call : Invocation) (value : Value)

/-- What is noted of an incident, if anything, and of the machine as it is then. -/
abbrev Scribe (ν : Type) := Machine → Incident → Option ν

/-- A machine and the notes of its run so far, the latest first. -/
structure Noted (ν : Type) where
  machine : Machine
  notes : List ν

abbrev NotedRun (ν : Type) := EStateM Signal (Noted ν)

namespace NotedRun

variable {ν α : Type} (scribe : Scribe ν)

/-- A run of which nothing is told. -/
def lift (run : Run α) : NotedRun ν α := fun t =>
  match run t.machine with
  | .ok a machine => .ok a { t with machine }
  | .error signal machine => .error signal { t with machine }

def tell (told : ν) : NotedRun ν Unit := fun t => .ok () { t with notes := told :: t.notes }

def note (incident : Incident) : NotedRun ν Unit := fun t =>
  match scribe t.machine incident with
  | none => .ok () t
  | some told => tell told t

def inEnvironment (e : EnvironmentId) (body : NotedRun ν α) : NotedRun ν α := fun t =>
  let saved := t.machine.current
  match body { t with machine := { t.machine with current := e } } with
  | .ok a t' => .ok a { t' with machine := { t'.machine with current := saved } }
  | .error signal t' =>
    .error signal { t' with machine := { t'.machine with current := saved } }

/-! ## Calls -/

/-- Binds a method to an instance. -/
def bindTo (object : InstanceId) (method : FunctionId) : NotedRun ν FunctionId := do
  let made ← lift (Run.change (·.bind method object))
  note scribe (.bound method object made)
  return made

/-- Ends the body of a call, or a `return` in it. -/
def catchReturn (call : Invocation) (body : NotedRun ν α) : NotedRun ν Value := fun t =>
  match body t with
  | .ok _ t' => .ok .nil t'
  | .error (.returned value) t' =>
    (do
      note scribe (.caught call value)
      return value) t'
  | .error signal t' => .error signal t'

/-- Runs the body of a function that has been called, and makes the value that the call yields. -/
def runBody (execute : Stmt → NotedRun ν Unit) (call : Invocation) : NotedRun ν Value := do
  let result ← catchReturn scribe call
    (inEnvironment call.frame (call.closure.declaration.body.forM execute))
  lift (if call.closure.isInitializer then do
      Run.ofInternal (← Run.ask (·.lookUpAt call.closure.environment 0 "this"))
    else return result)

def invoke (execute : Stmt → NotedRun ν Unit) (call : Invocation) (arguments : List Value) :
    NotedRun ν Value := do
  note scribe (.called call arguments)
  let value ← runBody scribe execute call
  note scribe (.completed call value)
  return value

def callFunction (execute : Stmt → NotedRun ν Unit) (f : FunctionId) (arguments : List Value) :
    NotedRun ν Value := do
  let closure ← lift (Run.ask (·.functionAt f))
  let receiver ← lift (Run.ask (·.receiver? closure))
  let parameters := closure.declaration.parameters
  let frame ← lift (Run.change
    (·.newEnvironment ⟨Run.parameterTable parameters arguments, some closure.environment⟩))
  invoke scribe execute ⟨f, closure, receiver, frame⟩ arguments

def callClass (execute : Stmt → NotedRun ν Unit) (c : ClassId) (arguments : List Value) :
    NotedRun ν Value := do
  let object ← lift (Run.change (·.newInstance c))
  match ← lift (Run.ask (·.method? c initializerName)) with
  | none => return .instance object
  | some initializer =>
    let _ ← callFunction scribe execute (← bindTo scribe object initializer) arguments
    return .instance object

def call (execute : Stmt → NotedRun ν Unit) (callee : Value) (arguments : List Value) :
    NotedRun ν Value :=
  match callee with
  | .native n => lift (Run.callNative n arguments)
  | .function f => callFunction scribe execute f arguments
  | .class c => callClass scribe execute c arguments
  | _ => return .nil

def callChecked (execute : Stmt → NotedRun ν Unit) (paren : Occurrence) (callee : Value)
    (arguments : List Value) : NotedRun ν Value := do
  match ← lift (Run.ask (·.arity? callee)) with
  | none => Run.fail paren .notCallable
  | some arity =>
    if arguments.length = arity then call scribe execute callee arguments
    else Run.fail paren (.wrongArity arity arguments.length)

def property (object : Value) (key : Occurrence) : NotedRun ν Value := do
  match object with
  | .instance i =>
    match ← Run.ofRuntime (← lift (Run.ask (·.member i key))) with
    | .field value => return value
    | .method f => return .function (← bindTo scribe i f)
  | _ => Run.fail key .noProperties

def superMethod (keyword method : Occurrence) : NotedRun ν Value := do
  match ← lift (Run.distance? keyword) with
  | none => throw .unresolvedSuper
  | some distance =>
    let e ← lift Run.current
    let superclass ← Run.ofInternal (← lift (Run.ask (·.lookUpAt e distance "super")))
    let object ← Run.ofInternal (← lift (Run.ask (·.lookUpAt e ((distance : Int) - 1) "this")))
    match superclass, object with
    | .class c, .instance i =>
      match ← lift (Run.ask (·.method? c method.name)) with
      | none => Run.fail method (.undefinedProperty method.name)
      | some f => return .function (← bindTo scribe i f)
    | _, _ => throw (.internal .malformedSuper)

def superclassOf (mention : Occurrence) : NotedRun ν ClassId := do
  note scribe (.mention .variable mention)
  lift (Run.superclassOf mention)

/-- The environment that the methods of a class close over. -/
def methodEnvironment (e : EnvironmentId) (parent : Option ClassId) : NotedRun ν EnvironmentId :=
  match parent with
  | none => return e
  | some c => lift (Run.change (·.newEnvironment ⟨Table.empty.insert "super" (.class c), some e⟩))

def declareClass (text : ClassText) : NotedRun ν Unit := do
  let parent ← text.superclass.mapM (superclassOf scribe)
  lift (Run.define text.name.name .nil)
  let e ← lift Run.current
  let inner ← methodEnvironment e parent
  let table ← lift (Run.methodTable inner text.methods)
  let made ← lift (Run.change (·.newClass ⟨text.name.name, parent, table⟩))
  note scribe (.declared text parent inner made)
  let holder ← Run.ofRuntime (← lift (Run.ask (·.holder e text.name)))
  lift (Run.defineIn holder text.name.name (.class made))

/-! ## Evaluation -/

def assignProperty (object : Value) (key : Occurrence) (value : NotedRun ν Value) :
    NotedRun ν Value := do
  match object with
  | .instance i =>
    let v ← value
    lift (Run.change fun h => ((), h.setField i key.name v))
    return v
  | _ => Run.fail key .noFields

def block (execute : Stmt → NotedRun ν Unit) (body : List Stmt) : NotedRun ν Unit := do
  let outer ← lift Run.current
  let e ← lift (Run.change (·.newEnvironment ⟨.empty, some outer⟩))
  inEnvironment e (body.forM execute)

/-- Ends a `return` statement. -/
def raise (statement : Stmt) (value : Value) : NotedRun ν Unit := do
  note scribe (.raised statement value)
  throw (.returned value)

mutual

def evaluate (loops : Nat) : (depth : Nat) → Expr → NotedRun ν Value
  | 0, _ => throw .exhausted
  | depth + 1, e =>
    match e with
    | .literal value => return .ofLiteral value
    | .grouping inner => evaluate loops depth inner
    | .name mention => do
      note scribe (.mention .variable mention)
      lift (Run.lookUp mention)
    | .assign mention value => do
      let v ← evaluate loops depth value
      note scribe (.mention .assignment mention)
      lift (Run.assign mention v)
      return v
    | .unary operator operand => do
      let v ← evaluate loops depth operand
      Run.operation operator (unaryOperation operator.token.kind v)
    | .binary left operator right => do
      let l ← evaluate loops depth left
      let r ← evaluate loops depth right
      Run.operation operator (binaryOperation operator.token.kind l r)
    | .logical left operator right => do
      let l ← evaluate loops depth left
      if Run.decides operator.token.kind l then return l else evaluate loops depth right
    | .call callee paren arguments => do
      let f ← evaluate loops depth callee
      let vs ← arguments.mapM (evaluate loops depth)
      callChecked scribe (execute loops depth) paren f vs
    | .get object name => do property scribe (← evaluate loops depth object) name
    | .set object name value => do
      assignProperty (← evaluate loops depth object) name (evaluate loops depth value)
    | .this keyword => do
      note scribe (.mention .this keyword)
      lift (Run.lookUp keyword)
    | .super keyword method => do
      note scribe (.mention .super keyword)
      superMethod scribe keyword method

def execute (loops : Nat) : (depth : Nat) → Stmt → NotedRun ν Unit
  | 0, _ => throw .exhausted
  | depth + 1, s =>
    match s with
    | .expression value => do let _ ← evaluate loops depth value
    | .print value => do lift (Run.print (← evaluate loops depth value))
    | .var name initializer => do
      let v ← match initializer with
        | none => pure .nil
        | some e => evaluate loops depth e
      lift (Run.define name.lexeme v)
    | .block body => block (execute loops depth) body
    | .ite condition thenBranch elseBranch => do
      if (← evaluate loops depth condition).isTruthy then execute loops depth thenBranch
      else
        match elseBranch with
        | none => pure ()
        | some s => execute loops depth s
    | .while condition body =>
      Run.repeatWhile (Value.isTruthy <$> evaluate loops depth condition) (execute loops depth body)
        loops
    | .function declaration => lift (Run.declareFunction declaration)
    | .return keyword value => do
      let v ← match value with
        | none => pure .nil
        | some e => evaluate loops depth e
      raise scribe (.return keyword value) v
    | .class name superclass methods => declareClass scribe ⟨name, superclass, methods⟩

end

/-- Runs the statements of a program in order, up to the first signal. -/
def interpret (loops depth : Nat) (program : List Stmt) (t : Noted ν) : Outcome × Noted ν :=
  match program.forM (execute scribe loops depth) t with
  | .ok _ t' => (.finished, t')
  | .error signal t' => (signal.outcome, t')

end NotedRun

end Lox
