import Lox.Proofs.Lexical.Store

/-!
# Lexical evaluation

An interpreter without a resolver and without distances: running a statement yields the map of local
names for the statements after it. A `var` evaluates its initializer before the map is extended; a
function or a class is declared before its body or its methods capture the map; a call extends the map
of the closure by the parameters, a bound method extends it by `this`, and a subclass by `super`.
-/

namespace Lox.Lexical

namespace LexicalRun

/-! ## Calls -/

/-- The map of a call: the names of the closure and the parameters with their arguments. -/
def bindParameters (names : Names) (parameters : List Token) (arguments : List Value) :
    LexicalRun Names :=
  ((parameters.map Token.lexeme).zip arguments).foldlM
    (fun names (name, value) => bindName names name value) names.enter

def callFunction (execute : Names → Stmt → LexicalRun Names) (f : FunctionId)
    (arguments : List Value) : LexicalRun Value := do
  let closure ← ask (·.functionAt f)
  let names ← bindParameters closure.names closure.declaration.parameters arguments
  let result ← Run.catchReturn (closure.declaration.body.foldlM execute names)
  if closure.isInitializer then
    match closure.names.find? "this" with
    | some c => ask (·.cellAt c)
    | none => throw (.internal (.unresolvedBinding "this" 0))
  else return result

/-- The function that behaves like `f` with `this` bound to an instance. -/
def bindTo (object : InstanceId) (f : FunctionId) : LexicalRun FunctionId := do
  let closure ← ask (·.functionAt f)
  newFunction { closure with names := ← bindName closure.names "this" (.instance object) }

def callClass (execute : Names → Stmt → LexicalRun Names) (c : ClassId) (arguments : List Value) :
    LexicalRun Value := do
  let object ← newInstance c
  match ← ask (·.objects.method? c initializerName) with
  | none => return .instance object
  | some initializer =>
    let _ ← callFunction execute (← bindTo object initializer) arguments
    return .instance object

def callNative (n : NativeId) (arguments : List Value) : LexicalRun Value := do
  match (← ask (·.objects.nativeAt n)).body with
  | .clock => readClock
  | .compute result => return result arguments

def call (execute : Names → Stmt → LexicalRun Names) (callee : Value) (arguments : List Value) :
    LexicalRun Value :=
  match callee with
  | .native n => callNative n arguments
  | .function f => callFunction execute f arguments
  | .class c => callClass execute c arguments
  | _ => return .nil

def callChecked (execute : Names → Stmt → LexicalRun Names) (paren : Occurrence) (callee : Value)
    (arguments : List Value) : LexicalRun Value := do
  match ← ask (·.objects.arity? callee) with
  | none => Run.fail paren .notCallable
  | some arity =>
    if arguments.length = arity then call execute callee arguments
    else Run.fail paren (.wrongArity arity arguments.length)

def property (object : Value) (key : Occurrence) : LexicalRun Value := do
  match object with
  | .instance i =>
    match ← Run.ofRuntime (← ask (·.objects.member i key)) with
    | .field value => return value
    | .method f => return .function (← bindTo i f)
  | _ => Run.fail key .noProperties

/-- The method of the class that `super` names, bound to the instance that `this` names. -/
def superMethod (names : Names) (method : Occurrence) : LexicalRun Value := do
  match names.find? "super", names.find? "this" with
  | some superCell, some thisCell =>
    match ← ask (·.cellAt superCell), ← ask (·.cellAt thisCell) with
    | .class c, .instance i =>
      match ← ask (·.objects.method? c method.name) with
      | none => Run.fail method (.undefinedProperty method.name)
      | some f => return .function (← bindTo i f)
    | _, _ => throw (.internal .malformedSuper)
  | _, _ => throw .unresolvedSuper

def superclassOf (names : Names) (mention : Occurrence) : LexicalRun ClassId := do
  match ← lookUp names mention with
  | .class c => return c
  | _ => Run.fail mention .superclassNotClass

def methodTable (names : Names) (methods : List Function) : LexicalRun (Table FunctionId) :=
  methods.foldlM (fun table method => do
    let f ← newFunction ⟨method, names, method.isInitializer⟩
    return table.insert method.name.lexeme f) .empty

/-- The names that the methods of a class close over. -/
def methodNames (names : Names) (parent : Option ClassId) : LexicalRun Names :=
  match parent with
  | none => return names
  | some c => bindName names "super" (.class c)

def declareClass (names : Names) (text : ClassText) : LexicalRun Names := do
  let parent ← text.superclass.mapM (superclassOf names)
  let names ← declare names text.name.name .nil
  let table ← methodTable (← methodNames names parent) text.methods
  let c ← newClass ⟨text.name.name, parent, table⟩
  complete names text.name.name (.class c)
  return names

/-! ## Evaluation -/

def assignProperty (object : Value) (key : Occurrence) (value : LexicalRun Value) :
    LexicalRun Value := do
  match object with
  | .instance i =>
    let v ← value
    setField i key.name v
    return v
  | _ => Run.fail key .noFields

/-- Declares a function, whose body may mention its own name. -/
def declareFunction (names : Names) (declaration : Function) : LexicalRun Names := do
  let names ← declare names declaration.name.lexeme .nil
  let f ← newFunction ⟨declaration, names, false⟩
  complete names declaration.name.lexeme (.function f)
  return names

mutual

def evaluate (loops : Nat) : (depth : Nat) → Names → Expr → LexicalRun Value
  | 0, _, _ => throw .exhausted
  | depth + 1, names, e =>
    match e with
    | .literal value => return .ofLiteral value
    | .grouping inner => evaluate loops depth names inner
    | .name mention => lookUp names mention
    | .assign mention value => do
      let v ← evaluate loops depth names value
      assign names mention v
      return v
    | .unary operator operand => do
      let v ← evaluate loops depth names operand
      Run.operation operator (unaryOperation operator.token.kind v)
    | .binary left operator right => do
      let l ← evaluate loops depth names left
      let r ← evaluate loops depth names right
      Run.operation operator (binaryOperation operator.token.kind l r)
    | .logical left operator right => do
      let l ← evaluate loops depth names left
      if Run.decides operator.token.kind l then return l else evaluate loops depth names right
    | .call callee paren arguments => do
      let f ← evaluate loops depth names callee
      let vs ← arguments.mapM (evaluate loops depth names)
      callChecked (execute loops depth) paren f vs
    | .get object name => do property (← evaluate loops depth names object) name
    | .set object name value => do
      assignProperty (← evaluate loops depth names object) name (evaluate loops depth names value)
    | .this keyword => lookUp names keyword
    | .super _ method => superMethod names method

/-- Runs a statement and yields the names that are in scope after it. -/
def execute (loops : Nat) : (depth : Nat) → Names → Stmt → LexicalRun Names
  | 0, _, _ => throw .exhausted
  | depth + 1, names, s =>
    match s with
    | .expression value => do
      let _ ← evaluate loops depth names value
      return names
    | .print value => do
      print (← evaluate loops depth names value)
      return names
    | .var name initializer => do
      let v ← match initializer with
        | none => pure .nil
        | some e => evaluate loops depth names e
      declare names name.lexeme v
    | .block body => do
      let _ ← body.foldlM (execute loops depth) names.enter
      return names
    | .ite condition thenBranch elseBranch => do
      if (← evaluate loops depth names condition).isTruthy then
        let _ ← execute loops depth names thenBranch
        return names
      else
        match elseBranch with
        | none => return names
        | some s => do
          let _ ← execute loops depth names s
          return names
    | .while condition body => do
      Run.repeatWhile (Value.isTruthy <$> evaluate loops depth names condition)
        (do let _ ← execute loops depth names body) loops
      return names
    | .function declaration => declareFunction names declaration
    | .return _ value => do
      let v ← match value with
        | none => pure .nil
        | some e => evaluate loops depth names e
      throw (.returned v)
    | .class name superclass methods => declareClass names ⟨name, superclass, methods⟩

end

end LexicalRun

/-- Runs the statements of a program in order, up to the first signal. -/
def interpret (loops depth : Nat) (program : List Stmt) (s : Store) : Outcome × Store :=
  match program.foldlM (LexicalRun.execute loops depth) .global s with
  | .ok _ s' => (.finished, s')
  | .error signal s' => (signal.outcome, s')

end Lox.Lexical
