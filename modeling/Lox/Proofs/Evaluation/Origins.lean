import Lox.Evaluation.Evaluate
import Lox.Proofs.Heap.Frames
import Lox.Proofs.Scope.Rules
import Mathlib.Logic.Relation

/-!
# Where effects come from

Whatever a run does to the heap, and whatever runtime error it ends with, comes of a node of the code:
of the tree that runs, or of the body of a function in the heap. If all the code has a property, then
the node that is answerable for an effect has it.
-/

namespace Lox

variable {α β : Type} {P : Node → Prop}

/-! ## Nodes and their effects -/

namespace Node

/-- The node and all its parts have the property. -/
def Throughout (P : Node → Prop) (node : Node) : Prop :=
  ∀ part, Relation.ReflTransGen (fun whole part => part ∈ whole.children) node part → P part

theorem Throughout.here {node : Node} (all : node.Throughout P) : P node := all node .refl

theorem Throughout.child {node child : Node} (all : node.Throughout P) (part : child ∈ node.children) :
    child.Throughout P :=
  fun other below => all other (below.head part)

/-- The node gives the name a value. -/
inductive Defines : Node → String → Prop where
  | assign (target : Occurrence) (value : Expr) :
      Defines (.expression (.assign target value)) target.name
  | var (name : Token) (initializer : Option Expr) :
      Defines (.statement (.var name initializer)) name.lexeme
  | function (declaration : Function) : Defines (.function declaration) declaration.name.lexeme
  | class (name : Occurrence) (parent : Option Occurrence) (methods : List Function) :
      Defines (.statement (.class name parent methods)) name.name

/-- The node can end a run with the error. -/
inductive Raises : Node → RuntimeError → Prop where
  | unary {operator : Occurrence} (operand : Expr) {value : Value} {fault : RuntimeFault}
      (fails : unaryOperation operator.token.kind value = .error fault) :
      Raises (.expression (.unary operator operand)) ⟨fault, operator⟩
  | binary (left : Expr) {operator : Occurrence} (right : Expr) {l r : Value} {fault : RuntimeFault}
      (fails : binaryOperation operator.token.kind l r = .error fault) :
      Raises (.expression (.binary left operator right)) ⟨fault, operator⟩
  | notCallable (callee : Expr) (paren : Occurrence) (arguments : List Expr) :
      Raises (.expression (.call callee paren arguments)) ⟨.notCallable, paren⟩
  | wrongArity (callee : Expr) (paren : Occurrence) (arguments : List Expr) (expected found : Nat) :
      Raises (.expression (.call callee paren arguments)) ⟨.wrongArity expected found, paren⟩
  | name (target : Occurrence) :
      Raises (.expression (.name target)) ⟨.undefinedVariable target.name, target⟩
  | assign (target : Occurrence) (value : Expr) :
      Raises (.expression (.assign target value)) ⟨.undefinedVariable target.name, target⟩
  | this (keyword : Occurrence) :
      Raises (.expression (.this keyword)) ⟨.undefinedVariable keyword.name, keyword⟩
  | get (object : Expr) (property : Occurrence) :
      Raises (.expression (.get object property)) ⟨.undefinedProperty property.name, property⟩
  | noProperties (object : Expr) (property : Occurrence) :
      Raises (.expression (.get object property)) ⟨.noProperties, property⟩
  | noFields (object : Expr) (property : Occurrence) (value : Expr) :
      Raises (.expression (.set object property value)) ⟨.noFields, property⟩
  | super (keyword : Occurrence) (method : Occurrence) :
      Raises (.expression (.super keyword method)) ⟨.undefinedProperty method.name, method⟩
  | superclass (className : Token) (mention : Occurrence) :
      Raises (.superclass className mention) ⟨.undefinedVariable mention.name, mention⟩
  | superclassNotClass (className : Token) (mention : Occurrence) :
      Raises (.superclass className mention) ⟨.superclassNotClass, mention⟩
  | class (name : Occurrence) (parent : Option Occurrence) (methods : List Function) :
      Raises (.statement (.class name parent methods)) ⟨.undefinedVariable name.name, name⟩

end Node

/-! ## Steps of the heap -/

namespace Heap

/-- The code of a function: the statements of its body have the property throughout. -/
def BodyOf (P : Node → Prop) (declaration : Function) : Prop :=
  ∀ s ∈ declaration.body, (Node.statement s).Throughout P

end Heap

theorem Node.Throughout.function {f : Function} (all : (Node.function f).Throughout P) :
    Heap.BodyOf P f :=
  fun s member => all.child (by simp [member])

theorem Node.Throughout.method {f : Function} (all : (Node.method f).Throughout P) : Heap.BodyOf P f :=
  fun s member => all.child (by simp [member])

namespace Heap

variable {h h' : Heap}

/-- All functions of the heap have such code. -/
def CodeOf (P : Node → Prop) (h : Heap) : Prop := ∀ f, BodyOf P (h.functionAt f).declaration

/-- A step of the heap for which a node with the property is answerable, if a name gets a value. -/
inductive StepBy (P : Node → Prop) (h : Heap) : Heap → Prop where
  | newEnvironment (env : Environment) : h.StepBy P (h.newEnvironment env).2
  | newFunction (closure : Closure) (body : BodyOf P closure.declaration) :
      h.StepBy P (h.newFunction closure).2
  | newClass (made : Class) : h.StepBy P (h.newClass made).2
  | newInstance (c : ClassId) : h.StepBy P (h.newInstance c).2
  | define (e : EnvironmentId) {name : String} (value : Value) {node : Node} (holds : P node)
      (defines : node.Defines name) : h.StepBy P (h.define e name value)
  | setField (i : InstanceId) (name : String) (value : Value) : h.StepBy P (h.setField i name value)

/-- The second heap is the first one after any number of such steps. -/
def StepsBy (P : Node → Prop) : Heap → Heap → Prop := Relation.ReflTransGen (StepBy P)

theorem StepBy.codeOf (step : h.StepBy P h') (code : h.CodeOf P) : h'.CodeOf P := by
  cases step with
  | newFunction closure body =>
    intro f
    rw [functionAt_newFunction]
    split
    · exact body
    · exact code f
  | newEnvironment | newClass | newInstance | define | setField => exact code

theorem StepsBy.codeOf (steps : h.StepsBy P h') (code : h.CodeOf P) : h'.CodeOf P := by
  induction steps with
  | refl => exact code
  | tail _ step inductionHypothesis => exact step.codeOf inductionHypothesis

/-! ### Failing accesses -/

theorem holder_error {e : EnvironmentId} {mention : Occurrence} {error : RuntimeError}
    (result : h.holder e mention = .error error) :
    error = ⟨.undefinedVariable mention.name, mention⟩ := by
  rw [holder] at result
  split at result <;> cases result
  rfl

theorem lookUp_error {e : EnvironmentId} {mention : Occurrence} {error : RuntimeError}
    (result : h.lookUp e mention = .error error) :
    error = ⟨.undefinedVariable mention.name, mention⟩ := by
  rw [lookUp] at result
  cases found : h.holder e mention with
  | ok o =>
    rw [found] at result
    cases result
  | error other =>
    rw [found] at result
    cases result
    exact holder_error found

theorem member_error {i : InstanceId} {key : Occurrence} {error : RuntimeError}
    (result : h.member i key = .error error) : error = ⟨.undefinedProperty key.name, key⟩ := by
  rw [member] at result
  cases field : (h.instanceAt i).fields.find? key.name with
  | some value =>
    rw [field] at result
    cases result
  | none =>
    rw [field] at result
    cases method : h.method? (h.instanceAt i).ofClass key.name with
    | some f =>
      simp only [method] at result
      cases result
    | none =>
      simp only [method] at result
      cases result
      rfl

end Heap

/-! ## Runs -/

/-- If the signal is a runtime error, a node with the property raises it. -/
def Signal.By (P : Node → Prop) (signal : Signal) : Prop :=
  ∀ error, signal = .failed error → ∃ node, P node ∧ node.Raises error

theorem Signal.By.raised {node : Node} {error : RuntimeError} (holds : P node)
    (raises : node.Raises error) : Signal.By P (.failed error) := by
  rintro _ ⟨⟩
  exact ⟨node, holds, raises⟩

/-- On a heap with such code, nodes with the property are answerable for all that the run does. -/
def Run.By (P : Node → Prop) (run : Run α) (Q : α → Prop) : Prop :=
  ∀ m, m.heap.CodeOf P →
    match run m with
    | .ok a m' => m.heap.StepsBy P m'.heap ∧ Q a
    | .error signal m' => m.heap.StepsBy P m'.heap ∧ signal.By P

namespace Run.By

variable {Q : α → Prop} {R : β → Prop}

/-! ### Sequences -/

theorem pure {a : α} (holds : Q a) : By P (pure a) Q := fun _ _ => ⟨.refl, holds⟩

theorem throw {signal : Signal} (answers : signal.By P) : By P (throw signal : Run α) Q :=
  fun _ _ => ⟨.refl, answers⟩

theorem bind {run : Run α} {f : α → Run β} (first : By P run Q) (second : ∀ a, Q a → By P (f a) R) :
    By P (run >>= f) R := by
  intro m code
  have here := first m code
  change match EStateM.bind run f m with
    | .ok b m' => m.heap.StepsBy P m'.heap ∧ R b
    | .error signal m' => m.heap.StepsBy P m'.heap ∧ signal.By P
  rw [EStateM.bind]
  cases result : run m with
  | error signal m' =>
    rw [result] at here
    exact here
  | ok a m' =>
    rw [result] at here
    obtain ⟨before, holds⟩ := here
    -- the second run starts on a heap whose code still has the property
    have later := second a holds m' (before.codeOf code)
    dsimp only
    cases rest : f a m' with
    | ok b m'' =>
      rw [rest] at later
      exact ⟨before.trans later.1, later.2⟩
    | error signal m'' =>
      rw [rest] at later
      exact ⟨before.trans later.1, later.2⟩

/-- What goes on whatever the first run yields. -/
theorem after {run : Run α} {f : α → Run β} (first : By P run fun _ => True)
    (second : ∀ a, By P (f a) R) : By P (run >>= f) R :=
  first.bind fun a _ => second a

theorem map {run : Run α} (first : By P run fun _ => True) (f : α → β) :
    By P (f <$> run) fun _ => True :=
  first.after fun _ => pure trivial

theorem fail {token : Occurrence} {fault : RuntimeFault} {node : Node} (holds : P node)
    (raises : node.Raises ⟨fault, token⟩) : By P (Run.fail token fault : Run α) Q :=
  throw (.raised holds raises)

theorem ofRuntime {result : Except RuntimeError α} {expected : RuntimeError} {node : Node} (holds : P node)
    (raises : node.Raises expected) (only : ∀ error, result = .error error → error = expected) :
    By P (Run.ofRuntime result : Run α) fun _ => True := by
  cases result with
  | ok a => exact pure trivial
  | error error => exact throw (.raised holds (only error rfl ▸ raises))

theorem ofInternal (result : Except InternalFault α) :
    By P (Run.ofInternal result : Run α) fun _ => True := by
  cases result with
  | ok a => exact pure trivial
  | error fault => exact throw (by rintro _ ⟨⟩)

theorem ask {f : Heap → α} (holds : ∀ h : Heap, h.CodeOf P → Q (f h)) : By P (Run.ask f) Q :=
  fun m code => ⟨.refl, holds m.heap code⟩

/-- An access that can fail in one way only. -/
theorem access {f : Heap → Except RuntimeError α} {expected : RuntimeError}
    (only : ∀ h error, f h = .error error → error = expected) :
    By P (Run.ask f) fun result => ∀ error, result = .error error → error = expected :=
  ask fun h _ => only h

theorem asks (f : Heap → α) : By P (Run.ask f) fun _ => True := ask fun _ _ => trivial

theorem current : By P Run.current fun _ => True := fun _ _ => ⟨.refl, trivial⟩

theorem globals : By P Run.globals fun _ => True := fun _ _ => ⟨.refl, trivial⟩

theorem distance? (mention : Occurrence) : By P (Run.distance? mention) fun _ => True :=
  fun _ _ => ⟨.refl, trivial⟩

theorem print (value : Value) : By P (Run.print value) fun _ => True := fun _ _ => ⟨.refl, trivial⟩

theorem readClock : By P Run.readClock fun _ => True := fun _ _ => ⟨.refl, trivial⟩

theorem change {f : Heap → α × Heap} (step : ∀ h : Heap, h.StepBy P (f h).2) :
    By P (Run.change f) fun _ => True :=
  fun m _ => ⟨.single (step m.heap), trivial⟩

/-- Binding a method makes an environment, and then a function whose code is that of the method. -/
theorem bindMethod (f : FunctionId) (i : InstanceId) :
    By P (Run.change (·.bind f i)) fun _ => True :=
  fun _ code => ⟨.tail (.single (.newEnvironment _)) (.newFunction _ (code f)), trivial⟩

theorem defineIn (e : EnvironmentId) {name : String} (value : Value) {node : Node} (holds : P node)
    (defines : node.Defines name) : By P (Run.defineIn e name value) fun _ => True :=
  change fun _ => .define e value holds defines

theorem define {name : String} (value : Value) {node : Node} (holds : P node)
    (defines : node.Defines name) : By P (Run.define name value) fun _ => True :=
  current.after fun e => defineIn e value holds defines

theorem forM {f : β → Run Unit} {items : List β} (each : ∀ item ∈ items, By P (f item) fun _ => True) :
    By P (items.forM f) fun _ => True := by
  induction items with
  | nil => exact pure trivial
  | cons item rest inductionHypothesis =>
    obtain ⟨first, each⟩ := List.forall_mem_cons.1 each
    exact first.after fun _ => inductionHypothesis each

theorem mapM {f : β → Run α} {items : List β} (each : ∀ item ∈ items, By P (f item) fun _ => True) :
    By P (items.mapM f) fun _ => True := by
  induction items with
  | nil => exact pure trivial
  | cons item rest inductionHypothesis =>
    obtain ⟨first, each⟩ := List.forall_mem_cons.1 each
    rw [List.mapM_cons]
    exact first.after fun _ => (inductionHypothesis each).after fun _ => pure trivial

theorem foldlM {f : α → β → Run α} {items : List β}
    (each : ∀ a, ∀ item ∈ items, By P (f a item) fun _ => True) (a : α) :
    By P (items.foldlM f a) fun _ => True := by
  induction items generalizing a with
  | nil => exact pure trivial
  | cons item rest inductionHypothesis =>
    rw [List.foldlM_cons]
    exact (each a item List.mem_cons_self).after fun a' =>
      inductionHypothesis (fun a item member => each a item (List.mem_cons_of_mem _ member)) a'

/-! ### Control -/

theorem inEnvironment {body : Run α} (runs : By P body Q) (e : EnvironmentId) :
    By P (Run.inEnvironment e body) Q := by
  intro m code
  have here := runs { m with current := e } code
  unfold Run.inEnvironment
  dsimp only at here ⊢
  cases result : body { m with current := e } <;> simpa only [result] using here

theorem catchReturn {body : Run α} (runs : By P body Q) :
    By P (Run.catchReturn body) fun _ => True := by
  intro m code
  have here := runs m code
  unfold Run.catchReturn
  cases result : body m with
  | ok a m' =>
    rw [result] at here
    exact ⟨here.1, trivial⟩
  | error signal m' =>
    rw [result] at here
    cases signal with
    | returned value => exact ⟨here.1, trivial⟩
    | failed | internal | unresolvedSuper | exhausted => exact here

theorem repeatWhile {condition : Run Bool} {body : Run Unit} (tests : By P condition fun _ => True)
    (runs : By P body fun _ => True) (limit : Nat) :
    By P (Run.repeatWhile condition body limit) fun _ => True := by
  induction limit with
  | zero => exact throw (by rintro _ ⟨⟩)
  | succ limit inductionHypothesis =>
    refine tests.after fun goesOn => ?_
    cases goesOn with
    | true => exact runs.after fun _ => inductionHypothesis
    | false => exact pure trivial

/-! ### Names and properties -/

theorem lookUp {mention : Occurrence} {node : Node} (holds : P node)
    (raises : node.Raises ⟨.undefinedVariable mention.name, mention⟩) :
    By P (Run.lookUp mention) fun _ => True := by
  refine (distance? mention).after fun distance => ?_
  cases distance with
  | none =>
    exact globals.after fun e => (access fun _ _ => Heap.lookUp_error).bind fun _ only =>
      ofRuntime holds raises only
  | some distance => exact current.after fun e => (asks _).after ofInternal

theorem assign {mention : Occurrence} (value : Value) {node : Node} (holds : P node)
    (raises : node.Raises ⟨.undefinedVariable mention.name, mention⟩)
    (defines : node.Defines mention.name) : By P (Run.assign mention value) fun _ => True := by
  refine (distance? mention).after fun distance => ?_
  cases distance with
  | none =>
    exact globals.after fun e => (access fun _ _ => Heap.holder_error).bind fun _ only =>
      (ofRuntime holds raises only).after fun holder =>
        defineIn holder value holds defines
  | some distance =>
    exact current.after fun e => (asks _).after fun found => (ofInternal found).after fun holder =>
      defineIn holder value holds defines

theorem property (object : Value) {key : Occurrence} {e : Expr}
    (holds : P (.expression (.get e key))) :
    By P (Run.property object key) fun _ => True := by
  cases object with
  | «instance» i =>
    refine (access fun _ _ => Heap.member_error).bind fun _ only =>
      (ofRuntime holds (.get e key) only).after fun member => ?_
    cases member with
    | field value => exact pure trivial
    | method f => exact (bindMethod f i).after fun _ => pure trivial
  | _ => exact fail holds (.noProperties e key)

theorem superMethod {keyword : Occurrence} {method : Occurrence}
    (holds : P (.expression (.super keyword method))) :
    By P (Run.superMethod keyword method) fun _ => True := by
  refine (distance? keyword).after fun distance => ?_
  cases distance with
  | none => exact throw (by rintro _ ⟨⟩)
  | some distance =>
    refine current.after fun e => (asks _).after fun found => (ofInternal found).after fun superclass =>
      (asks _).after fun found => (ofInternal found).after fun object => ?_
    split
    · refine (asks _).after fun found => ?_
      cases found with
      | none => exact fail holds (.super keyword method)
      | some f => exact (bindMethod f _).after fun _ => pure trivial
    · exact throw (by rintro _ ⟨⟩)

theorem assignProperty (object : Value) {key : Occurrence} {e v : Expr}
    (holds : P (.expression (.set e key v))) {value : Run Value} (runs : By P value fun _ => True) :
    By P (Run.assignProperty object key value) fun _ => True := by
  cases object with
  | «instance» i =>
    exact runs.after fun v => (change fun _ => .setField i _ v).after fun _ => pure trivial
  | _ => exact fail holds (.noFields e key v)

theorem operation {operator : Occurrence} {result : Except RuntimeFault Value} {node : Node}
    (holds : P node)
    (raises : ∀ fault, result = .error fault → node.Raises ⟨fault, operator⟩) :
    By P (Run.operation operator result : Run Value) fun _ => True := by
  cases result with
  | ok value => exact pure trivial
  | error fault => exact fail holds (raises fault rfl)

/-! ### Declarations -/

theorem declareFunction {f : Function} (all : (Node.statement (.function f)).Throughout P) :
    By P (Run.declareFunction f) fun _ => True := by
  have declared : (Node.function f).Throughout P := all.child (by simp)
  exact current.after fun _ => (change fun _ => .newFunction _ declared.function).after fun _ =>
    define _ declared.here (.function f)

theorem superclassOf {className : Token} {mention : Occurrence}
    (holds : P (.superclass className mention)) : By P (Run.superclassOf mention) fun _ => True := by
  refine (lookUp holds (.superclass className mention)).after fun v => ?_
  cases v with
  | «class» c => exact pure trivial
  | _ => exact fail holds (.superclassNotClass className mention)

theorem methodTable (e : EnvironmentId) {methods : List Function}
    (bodies : ∀ f ∈ methods, Heap.BodyOf P f) : By P (Run.methodTable e methods) fun _ => True :=
  foldlM (fun _ f member =>
    (change fun _ => .newFunction _ (bodies f member)).after fun _ => pure trivial) _

theorem declareClass {name : Occurrence} {superclass : Option Occurrence} {methods : List Function}
    (all : (Node.statement (.class name superclass methods)).Throughout P) :
    By P (Run.declareClass name superclass methods) fun _ => True := by
  have bodies : ∀ f ∈ methods, Heap.BodyOf P f := by
    intro f member
    have method : (Node.method f).Throughout P := all.child (by simpa using member)
    exact method.method
  have parents : By P (superclass.mapM Run.superclassOf) fun _ => True := by
    cases superclass with
    | none => exact pure trivial
    | some mention =>
      have child : (Node.superclass name.token mention).Throughout P := all.child (by simp)
      exact (superclassOf child.here).map some
  have rest : ∀ parent (e inner : EnvironmentId), By P (do
      let table ← Run.methodTable inner methods
      let c ← Run.change (·.newClass ⟨name.name, parent, table⟩)
      let holder ← Run.ofRuntime (← Run.ask (·.holder e name))
      Run.defineIn holder name.name (.class c)) fun _ => True := fun parent e inner =>
    (methodTable inner bodies).after fun _ => (change fun _ => .newClass _).after fun _ =>
      (access fun _ _ => Heap.holder_error).bind fun _ only =>
        (ofRuntime all.here (.class name superclass methods) only).after fun _ =>
          defineIn _ _ all.here (.class name superclass methods)
  refine parents.after fun parent => (define _ all.here (.class name superclass methods)).after fun _ =>
    current.after fun e => ?_
  cases parent with
  | none => exact rest none e e
  | some c => exact (change fun _ => .newEnvironment _).after fun inner => rest (some c) e inner

/-! ### Calls -/

section Calls

variable {execute : Stmt → Run Unit}
  (executes : ∀ s : Stmt, (Node.statement s).Throughout P → By P (execute s) fun _ => True)
include executes

theorem block {body : List Stmt} (all : (Node.statement (.block body)).Throughout P) :
    By P (Run.block execute body) fun _ => True :=
  current.after fun _ => (change fun _ => .newEnvironment _).after fun e =>
    (forM fun s member => executes s (all.child (by simpa using member))).inEnvironment e

/-- The body of a function comes off the heap, whose code has the property. -/
theorem callFunction (f : FunctionId) (arguments : List Value) :
    By P (Run.callFunction execute f arguments) fun _ => True := by
  have asked : By P (Run.ask (·.functionAt f)) fun closure => Heap.BodyOf P closure.declaration :=
    ask fun _ code => code f
  refine asked.bind fun closure bodies => (change fun _ => .newEnvironment _).after fun e => ?_
  have body : By P (closure.declaration.body.forM execute) fun _ => True :=
    forM fun s member => executes s (bodies s member)
  refine (body.inEnvironment e).catchReturn.after fun result => ?_
  cases closure.isInitializer with
  | true => exact (asks _).after ofInternal
  | false => exact pure trivial

theorem callClass (c : ClassId) (arguments : List Value) :
    By P (Run.callClass execute c arguments) fun _ => True := by
  refine (change fun _ => .newInstance c).after fun object => (asks _).after fun found => ?_
  cases found with
  | none => exact pure trivial
  | some initializer =>
    exact (bindMethod initializer object).after fun bound =>
      (callFunction executes bound arguments).after fun _ => pure trivial

omit executes in
theorem callNative (n : NativeId) (arguments : List Value) :
    By P (Run.callNative n arguments) fun _ => True := by
  refine (asks _).after fun native => ?_
  cases native.body with
  | clock => exact readClock
  | compute result => exact pure trivial

theorem callChecked {e : Expr} {paren : Occurrence} {es : List Expr}
    (holds : P (.expression (.call e paren es)))
    (callee : Value) (arguments : List Value) :
    By P (Run.callChecked execute paren callee arguments) fun _ => True := by
  refine (asks _).after fun arity => ?_
  cases arity with
  | none => exact fail holds (.notCallable e paren es)
  | some arity =>
    dsimp only
    split
    · cases callee with
      | native n => exact callNative n arguments
      | function f => exact callFunction executes f arguments
      | «class» c => exact callClass executes c arguments
      | _ => exact pure trivial
    · exact fail holds (.wrongArity e paren es _ _)

end Calls

/-! ### Trees -/

section Step

variable {loops depth : Nat}
  (evaluates : ∀ e : Expr, (Node.expression e).Throughout P → By P (evaluate loops depth e) fun _ => True)
  (executes : ∀ s : Stmt, (Node.statement s).Throughout P → By P (execute loops depth s) fun _ => True)

include evaluates executes in
theorem evaluate_succ {e : Expr} (all : (Node.expression e).Throughout P) :
    By P (evaluate loops (depth + 1) e) fun _ => True := by
  rw [evaluate.eq_def]
  cases e with
  | literal value => exact pure trivial
  | grouping inner => exact evaluates inner (all.child (by simp))
  | name mention => exact lookUp all.here (.name mention)
  | assign mention value =>
    exact (evaluates value (all.child (by simp))).after fun v =>
      (assign v all.here (.assign mention value) (.assign mention value)).after fun _ => pure trivial
  | unary operator operand =>
    exact (evaluates operand (all.child (by simp))).after fun v =>
      operation all.here fun _ fails => .unary operand fails
  | binary left operator right =>
    exact (evaluates left (all.child (by simp))).after fun l =>
      (evaluates right (all.child (by simp))).after fun r =>
        operation all.here fun _ fails => .binary left right fails
  | logical left operator right =>
    refine (evaluates left (all.child (by simp))).after fun l => ?_
    cases Run.decides operator.token.kind l with
    | true => exact pure trivial
    | false => exact evaluates right (all.child (by simp))
  | call callee paren arguments =>
    exact (evaluates callee (all.child (by simp))).after fun f =>
      (mapM fun a member => evaluates a (all.child (by simp [member]))).after fun vs =>
        callChecked executes all.here f vs
  | get object name => exact (evaluates object (all.child (by simp))).after fun v => property v all.here
  | set object name value =>
    exact (evaluates object (all.child (by simp))).after fun v =>
      assignProperty v all.here (evaluates value (all.child (by simp)))
  | this keyword => exact lookUp all.here (.this keyword)
  | super keyword method => exact superMethod all.here

/-- What goes on with the value of an optional part, or with `nil`. -/
theorem optional {f : Value → Run Unit} {value : Option Expr}
    (all : ∀ e ∈ value, (Node.expression e).Throughout P)
    (evaluates : ∀ e : Expr, (Node.expression e).Throughout P →
      By P (evaluate loops depth e) fun _ => True)
    (rest : ∀ v, By P (f v) fun _ => True) :
    By P (match value with
      | none => Pure.pure .nil >>= f
      | some e => evaluate loops depth e >>= f) fun _ => True := by
  cases value with
  | none => exact (pure (Q := fun _ => True) trivial).after rest
  | some e => exact (evaluates e (all e rfl)).after rest

include evaluates executes in
theorem execute_succ {s : Stmt} (all : (Node.statement s).Throughout P) :
    By P (execute loops (depth + 1) s) fun _ => True := by
  rw [execute.eq_def]
  cases s with
  | expression value => exact (evaluates value (all.child (by simp))).after fun _ => pure trivial
  | print value => exact (evaluates value (all.child (by simp))).after print
  | var name initializer =>
    exact optional (fun e found => all.child (by simpa using found)) evaluates fun v =>
      define v all.here (.var name initializer)
  | block body => exact block executes all
  | ite condition thenBranch elseBranch =>
    refine (evaluates condition (all.child (by simp))).after fun v => ?_
    cases v.isTruthy with
    | true => exact executes thenBranch (all.child (by simp))
    | false =>
      cases elseBranch with
      | none => exact pure trivial
      | some elseBranch => exact executes elseBranch (all.child (by simp))
  | «while» condition body =>
    exact repeatWhile ((evaluates condition (all.child (by simp))).map _)
      (executes body (all.child (by simp))) loops
  | function declaration => exact declareFunction all
  | «return» keyword value =>
    exact optional (fun e found => all.child (by simpa using found)) evaluates fun v =>
      throw (by rintro _ ⟨⟩)
  | «class» name superclass methods => exact declareClass all

end Step

/-- The induction is on how deeply the run nests. -/
theorem evaluation (P : Node → Prop) (loops depth : Nat) :
    (∀ e : Expr, (Node.expression e).Throughout P → By P (evaluate loops depth e) fun _ => True) ∧
      ∀ s : Stmt, (Node.statement s).Throughout P → By P (execute loops depth s) fun _ => True := by
  induction depth with
  | zero =>
    have exhausted : Signal.exhausted.By P := by rintro _ ⟨⟩
    exact ⟨fun _ _ => throw exhausted, fun _ _ => throw exhausted⟩
  | succ depth inductionHypothesis =>
    obtain ⟨evaluates, executes⟩ := inductionHypothesis
    exact ⟨fun _ => evaluate_succ evaluates executes, fun _ => execute_succ evaluates executes⟩

end Run.By

/-- The run of a program, on a heap with such code, and the error that it ends with. -/
theorem interpret_by (loops depth : Nat) {program : List Stmt}
    (all : ∀ s ∈ program, (Node.statement s).Throughout P) {m : Machine} (code : m.heap.CodeOf P) :
    m.heap.StepsBy P (interpret loops depth program m).2.heap ∧
      ∀ error, (interpret loops depth program m).1 = .failed error →
        ∃ node, P node ∧ node.Raises error := by
  have here := Run.By.forM (fun s member => (Run.By.evaluation P loops depth).2 s (all s member)) m code
  unfold interpret
  generalize program.forM (execute loops depth) m = result at here
  cases result with
  | ok _ m' =>
    refine ⟨here.1, ?_⟩
    rintro error ⟨⟩
  | error signal m' =>
    -- Of all signals only a failure becomes the error of the outcome.
    refine ⟨here.1, fun error failed => here.2 error ?_⟩
    cases signal with
    | failed error' =>
      cases failed
      rfl
    | returned | internal | unresolvedSuper | exhausted => cases failed

end Lox
