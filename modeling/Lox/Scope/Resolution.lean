import Lox.Scope.Fault
import Lox.Syntax
import Lox.Table

/-!
# Resolution

`resolve` walks a program with the stack of local scopes that surround each place. For every mention
of a local name it records the distance to the scope that declares the name; a mention without a
record means a global. It finds the faults of scope on the way and never stops at one.
-/

namespace Lox

/-- The names declared in a scope, each with whether its initializer is complete. -/
abbrev Scope := Table Bool

/-- The forms of expression that mention a binding. -/
inductive MentionForm where
  | variable
  | assignment
  | this
  | super
deriving DecidableEq, Inhabited, Repr

/-- A mention of a local name and the number of scopes between it and the one that declares it. -/
structure Binding where
  form : MentionForm
  mention : Occurrence
  distance : Nat
deriving DecidableEq, Inhabited, Repr

/-- The kind of function around a place. -/
inductive FunctionContext where
  | outside
  | function
  | method
  | initializer
deriving DecidableEq, Inhabited, Repr

/-- The kind of class around a place. -/
inductive ClassContext where
  | outside
  | baseClass
  | subclass
deriving DecidableEq, Inhabited, Repr

/-- What surrounds a place, its scopes apart. -/
structure Context where
  inFunction : FunctionContext
  inClass : ClassContext
deriving DecidableEq, Inhabited, Repr

def Context.topLevel : Context := ⟨.outside, .outside⟩

/-- The scopes around a place, the innermost first, and what has been found so far. -/
structure Resolver where
  scopes : List Scope
  errors : Array ScopeError
  bindings : Array Binding
deriving Inhabited

namespace Resolver

def initial : Resolver := ⟨[], #[], #[]⟩

/-- Reports a fault. -/
def report (r : Resolver) (fault : ScopeFault) (token : Token) : Resolver :=
  { r with errors := r.errors.push ⟨fault, token⟩ }

/-- Opens a scope. -/
def enter (r : Resolver) (scope : Scope) : Resolver :=
  { r with scopes := scope :: r.scopes }

/-- Closes the innermost scope. -/
def leave (r : Resolver) : Resolver :=
  { r with scopes := r.scopes.tail }

/-- Gives a name of the innermost scope a flag. At top level there is no scope to hold it. -/
def mark (r : Resolver) (name : String) (complete : Bool) : Resolver :=
  match r.scopes with
  | [] => r
  | scope :: outer => { r with scopes := scope.insert name complete :: outer }

/-- Declares a name in the innermost scope, as not yet complete. -/
def declare (r : Resolver) (name : Token) : Resolver :=
  match r.scopes with
  | [] => r
  | scope :: _ =>
    let r := if scope.contains name.lexeme then r.report .alreadyDeclared name else r
    r.mark name.lexeme false

/-- Marks a declared name as complete. -/
def define (r : Resolver) (name : Token) : Resolver := r.mark name.lexeme true

/-- Declares a name that is complete at once. -/
def declareComplete (r : Resolver) (name : Token) : Resolver := (r.declare name).define name

/-- The number of scopes between the innermost one and the nearest that declares the name. -/
def distance? (r : Resolver) (name : String) : Option Nat :=
  r.scopes.findIdx? (·.contains name)

/-- Records the distance of a mention, unless it is global. -/
def bind (r : Resolver) (form : MentionForm) (mention : Occurrence) : Resolver :=
  match r.distance? mention.name with
  | none => r
  | some distance => { r with bindings := r.bindings.push ⟨form, mention, distance⟩ }

/-- Whether the innermost scope declares the name and its initializer is not complete. -/
def inOwnInitializer (r : Resolver) (name : String) : Bool :=
  match r.scopes with
  | [] => false
  | scope :: _ => scope.find? name == some false

/-- Resolves a mention that reads a variable. -/
def read (r : Resolver) (mention : Occurrence) : Resolver :=
  let r := if r.inOwnInitializer mention.name then r.report .ownInitializer mention.token else r
  r.bind .variable mention

/-- Resolves `this`. Outside of a class it has no binding. -/
def readThis (r : Resolver) (context : ClassContext) (keyword : Occurrence) : Resolver :=
  match context with
  | .outside => r.report .thisOutsideClass keyword.token
  | _ => r.bind .this keyword

/-- Resolves `super`. -/
def readSuper (r : Resolver) (context : ClassContext) (keyword : Occurrence) : Resolver :=
  let r := match context with
    | .outside => r.report .superOutsideClass keyword.token
    | .baseClass => r.report .superWithoutSuperclass keyword.token
    | .subclass => r
  r.bind .super keyword

/-- Checks the place of a `return`. -/
def checkReturn (r : Resolver) (context : FunctionContext) (keyword : Token) (hasValue : Bool) :
    Resolver :=
  match context with
  | .outside => r.report .topLevelReturn keyword
  | .initializer => if hasValue then r.report .initializerReturn keyword else r
  | _ => r

/-- The scope that holds just the given implicit name. -/
def implicitScope (name : String) : Scope := Table.empty.insert name true

/-- Declares a class, resolves its superclass, and opens the scopes around its methods. -/
def enterClass (r : Resolver) (name : Token) (superclass : Option Occurrence) : Resolver :=
  let r := r.declareComplete name
  let r := match superclass with
    | none => r
    | some parent =>
      let r := if parent.name == name.lexeme then r.report .inheritsFromItself parent.token else r
      (r.read parent).enter (implicitScope "super")
  r.enter (implicitScope "this")

/-- Closes the scopes around the methods of a class. -/
def leaveClass (r : Resolver) (superclass : Option Occurrence) : Resolver :=
  match superclass with
  | none => r.leave
  | some _ => r.leave.leave

/-- Opens the scope of a function and declares the parameters in it. -/
def enterFunction (r : Resolver) (parameters : List Token) : Resolver :=
  parameters.foldl declareComplete (r.enter .empty)

end Resolver

/-- The context of the methods of a class. -/
def Context.ofClass (context : Context) (superclass : Option Occurrence) : Context :=
  { context with inClass := if superclass.isSome then .subclass else .baseClass }

/-- The kind of function that a method is. -/
def Function.methodContext (f : Function) : FunctionContext :=
  if f.isInitializer then .initializer else .method

mutual

/-- Resolves an expression. A property assignment resolves its value before its object. -/
def Expr.resolve (context : ClassContext) : Expr → Resolver → Resolver
  | .literal _, r => r
  | .grouping inner, r => inner.resolve context r
  | .name target, r => r.read target
  | .assign target value, r => (value.resolve context r).bind .assignment target
  | .unary _ operand, r => operand.resolve context r
  | .binary left _ right, r => right.resolve context (left.resolve context r)
  | .logical left _ right, r => right.resolve context (left.resolve context r)
  | .call callee _ arguments, r => Expr.resolveAll context arguments (callee.resolve context r)
  | .get object _, r => object.resolve context r
  | .set object _ value, r => object.resolve context (value.resolve context r)
  | .this keyword, r => r.readThis context keyword
  | .super keyword _, r => r.readSuper context keyword

/-- Resolves expressions from left to right. -/
def Expr.resolveAll (context : ClassContext) : List Expr → Resolver → Resolver
  | [], r => r
  | e :: rest, r => Expr.resolveAll context rest (e.resolve context r)

end

mutual

def Stmt.resolve (context : Context) : Stmt → Resolver → Resolver
  | .expression value, r => value.resolve context.inClass r
  | .print value, r => value.resolve context.inClass r
  | .var name none, r => r.declareComplete name
  | .var name (some initializer), r =>
    (initializer.resolve context.inClass (r.declare name)).define name
  | .block body, r => (Stmt.resolveAll context body (r.enter .empty)).leave
  | .ite condition thenBranch none, r =>
    thenBranch.resolve context (condition.resolve context.inClass r)
  | .ite condition thenBranch (some elseBranch), r =>
    elseBranch.resolve context (thenBranch.resolve context (condition.resolve context.inClass r))
  | .while condition body, r => body.resolve context (condition.resolve context.inClass r)
  | .function declaration, r =>
    declaration.resolve { context with inFunction := .function }
      (r.declareComplete declaration.name)
  | .return keyword none, r => r.checkReturn context.inFunction keyword false
  | .return keyword (some value), r =>
    value.resolve context.inClass (r.checkReturn context.inFunction keyword true)
  | .class name superclass methods, r =>
    (Function.resolveMethods (context.ofClass superclass) methods
      (r.enterClass name.token superclass)).leaveClass superclass

/-- Resolves statements in order. -/
def Stmt.resolveAll (context : Context) : List Stmt → Resolver → Resolver
  | [], r => r
  | s :: rest, r => Stmt.resolveAll context rest (s.resolve context r)

/-- Resolves the parameters and the body of a function, in the context of its body. -/
def Function.resolve (context : Context) : Function → Resolver → Resolver
  | .mk _ parameters body, r =>
    (Stmt.resolveAll context body (r.enterFunction parameters)).leave

/-- Resolves the methods of a class in order. -/
def Function.resolveMethods (context : Context) : List Function → Resolver → Resolver
  | [], r => r
  | f :: rest, r =>
    Function.resolveMethods context rest
      (f.resolve { context with inFunction := f.methodContext } r)

end

/-- What resolution finds: the distances of local names in the order of their mention, and faults. -/
structure Resolution where
  bindings : List Binding
  errors : List ScopeError
deriving DecidableEq, Inhabited, Repr

/-- Resolves a program. -/
def resolve (program : List Stmt) : Resolution :=
  let r := Stmt.resolveAll .topLevel program .initial
  ⟨r.bindings.toList, r.errors.toList⟩

end Lox
