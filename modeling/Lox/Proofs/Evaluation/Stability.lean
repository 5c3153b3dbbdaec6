import Lox.Evaluation.Evaluate

/-!
# What every run keeps

A relation between the machine before a step and the one after it is stable if all single steps obey it,
and it passes through sequences of steps and out of the environments that a run enters. Then every run
obeys it, of whatever tree and from whatever machine, and however it ends.
-/

namespace Lox

variable {α β : Type}

/-- The machine that a run leaves, whether it yields a value or ends with a signal. -/
def Run.left (run : Run α) (m : Machine) : Machine :=
  match run m with
  | .ok _ m' => m'
  | .error _ m' => m'

/-- What a single step of a run does to the heap. -/
inductive Heap.Step (h : Heap) : Heap → Prop where
  | newEnvironment (e : Environment) : h.Step (h.newEnvironment e).2
  | newFunction (f : Closure) : h.Step (h.newFunction f).2
  | newClass (c : Class) : h.Step (h.newClass c).2
  | newInstance (c : ClassId) : h.Step (h.newInstance c).2
  | define (e : EnvironmentId) (name : String) (value : Value) : h.Step (h.define e name value)
  | setField (i : InstanceId) (name : String) (value : Value) : h.Step (h.setField i name value)

/-- A relation between machines that no step breaks. -/
structure Machine.Stable (R : Machine → Machine → Prop) : Prop where
  refl : ∀ m, R m m
  trans : ∀ {m m' m''}, R m m' → R m' m'' → R m m''
  heap : ∀ (m : Machine) {h}, m.heap.Step h → R m { m with heap := h }
  printed : ∀ (m : Machine) (text : String), R m { m with printed := m.printed.push text }
  readings : ∀ m : Machine, R m { m with readings := m.readings + 1 }
  inside : ∀ {m m' : Machine} (e : EnvironmentId), R { m with current := e } m' →
    R m { m' with current := m.current }

/-- From every machine, the run leaves one that is so related to it. -/
def Run.Obeys (R : Machine → Machine → Prop) (run : Run α) : Prop := ∀ m, R m (run.left m)

namespace Machine.Stable

variable {R : Machine → Machine → Prop} (stable : Stable R)
include stable

/-! ## Steps and sequences -/

theorem pure (a : α) : Run.Obeys R (pure a) := stable.refl

theorem throw (signal : Signal) : Run.Obeys R (throw signal : Run α) := stable.refl

theorem fail (token : Occurrence) (fault : RuntimeFault) :
    Run.Obeys R (Run.fail token fault : Run α) :=
  stable.throw _

theorem bind {run : Run α} {f : α → Run β} (first : Run.Obeys R run)
    (second : ∀ a, Run.Obeys R (f a)) : Run.Obeys R (run >>= f) := by
  intro m
  have here := first m
  unfold Run.left at here ⊢
  rw [show (run >>= f) m = EStateM.bind run f m from rfl, EStateM.bind]
  cases result : run m with
  | error signal m' => simpa only [result] using here
  | ok a m' =>
    rw [result] at here
    exact stable.trans here (second a m')

theorem map {run : Run α} (obeys : Run.Obeys R run) (f : α → β) : Run.Obeys R (f <$> run) :=
  stable.bind obeys fun a => stable.pure (f a)

theorem ofRuntime (result : Except RuntimeError α) : Run.Obeys R (Run.ofRuntime result : Run α) := by
  cases result with
  | ok a => exact stable.pure a
  | error error => exact stable.throw _

theorem ofInternal (result : Except InternalFault α) :
    Run.Obeys R (Run.ofInternal result : Run α) := by
  cases result with
  | ok a => exact stable.pure a
  | error fault => exact stable.throw _

theorem ask (f : Heap → α) : Run.Obeys R (Run.ask f) := stable.refl

theorem current : Run.Obeys R Run.current := stable.refl

theorem globals : Run.Obeys R Run.globals := stable.refl

theorem distance? (mention : Occurrence) : Run.Obeys R (Run.distance? mention) := stable.refl

theorem change {f : Heap → α × Heap} (step : ∀ h : Heap, h.Step (f h).2) : Run.Obeys R (Run.change f) :=
  fun m => stable.heap m (step m.heap)

/-- Binding a method makes an environment and then a function. -/
theorem bindMethod (f : FunctionId) (i : InstanceId) :
    Run.Obeys R (Run.change (·.bind f i)) := fun m =>
  stable.trans (stable.heap m (.newEnvironment _)) (stable.heap _ (.newFunction _))

theorem defineIn (e : EnvironmentId) (name : String) (value : Value) :
    Run.Obeys R (Run.defineIn e name value) :=
  stable.change fun _ => .define e name value

theorem define (name : String) (value : Value) : Run.Obeys R (Run.define name value) :=
  stable.bind stable.current fun e => stable.defineIn e name value

theorem forM {f : β → Run Unit} (each : ∀ item, Run.Obeys R (f item)) (items : List β) :
    Run.Obeys R (items.forM f) := by
  induction items with
  | nil => exact stable.pure ()
  | cons item rest inductionHypothesis =>
    exact stable.bind (each item) fun _ => inductionHypothesis

theorem mapM {f : β → Run α} (each : ∀ item, Run.Obeys R (f item)) (items : List β) :
    Run.Obeys R (items.mapM f) := by
  induction items with
  | nil => exact stable.pure []
  | cons item rest inductionHypothesis =>
    rw [List.mapM_cons]
    exact stable.bind (each item) fun a => stable.bind inductionHypothesis fun as =>
      stable.pure (a :: as)

theorem foldlM {f : α → β → Run α} (each : ∀ a item, Run.Obeys R (f a item)) (items : List β)
    (a : α) : Run.Obeys R (items.foldlM f a) := by
  induction items generalizing a with
  | nil => exact stable.pure a
  | cons item rest inductionHypothesis =>
    rw [List.foldlM_cons]
    exact stable.bind (each a item) inductionHypothesis

/-! ## Control -/

/-- The environment that was current is current again, however the body ends. -/
theorem inEnvironment {body : Run α} (obeys : Run.Obeys R body) (e : EnvironmentId) :
    Run.Obeys R (Run.inEnvironment e body) := by
  intro m
  have here := stable.inside e (obeys { m with current := e })
  unfold Run.left Run.inEnvironment at *
  cases result : body { m with current := e } <;> simpa only [result] using here

omit stable in
theorem catchReturn {body : Run α} (obeys : Run.Obeys R body) :
    Run.Obeys R (Run.catchReturn body) := by
  intro m
  have here := obeys m
  unfold Run.left Run.catchReturn at *
  cases result : body m with
  | ok a m' => simpa only [result] using here
  | error signal m' => cases signal <;> simpa only [result] using here

theorem repeatWhile {condition : Run Bool} {body : Run Unit} (tests : Run.Obeys R condition)
    (obeys : Run.Obeys R body) (limit : Nat) :
    Run.Obeys R (Run.repeatWhile condition body limit) := by
  induction limit with
  | zero => exact stable.throw _
  | succ limit inductionHypothesis =>
    apply stable.bind tests
    intro goesOn
    cases goesOn with
    | true => exact stable.bind obeys fun _ => inductionHypothesis
    | false => exact stable.pure ()

/-! ## Names -/

theorem lookUp (mention : Occurrence) : Run.Obeys R (Run.lookUp mention) := by
  apply stable.bind (stable.distance? mention)
  intro distance
  cases distance with
  | none => exact stable.bind stable.globals fun e => stable.bind (stable.ask _) stable.ofRuntime
  | some distance =>
    exact stable.bind stable.current fun e => stable.bind (stable.ask _) stable.ofInternal

theorem assign (mention : Occurrence) (value : Value) : Run.Obeys R (Run.assign mention value) := by
  apply stable.bind (stable.distance? mention)
  intro distance
  cases distance with
  | none =>
    exact stable.bind stable.globals fun e => stable.bind (stable.ask _) fun found =>
      stable.bind (stable.ofRuntime found) fun holder => stable.defineIn holder _ value
  | some distance =>
    exact stable.bind stable.current fun e => stable.bind (stable.ask _) fun found =>
      stable.bind (stable.ofInternal found) fun holder => stable.defineIn holder _ value

theorem declareFunction (declaration : Function) :
    Run.Obeys R (Run.declareFunction declaration) :=
  stable.bind stable.current fun _ => stable.bind (stable.change fun _ => .newFunction _) fun _ =>
    stable.define _ _

theorem superclassOf (mention : Occurrence) : Run.Obeys R (Run.superclassOf mention) := by
  apply stable.bind (stable.lookUp mention)
  intro v
  cases v with
  | «class» c => exact stable.pure c
  | _ => exact stable.fail _ _

theorem methodTable (e : EnvironmentId) (methods : List Function) :
    Run.Obeys R (Run.methodTable e methods) :=
  stable.foldlM (fun _ _ => stable.bind (stable.change fun _ => .newFunction _) fun _ =>
    stable.pure _) methods _

theorem declareClass (name : Occurrence) (superclass : Option Occurrence)
    (methods : List Function) :
    Run.Obeys R (Run.declareClass name superclass methods) := by
  have found : Run.Obeys R (superclass.mapM Run.superclassOf) := by
    cases superclass with
    | none => exact stable.pure none
    | some mention => exact stable.map (stable.superclassOf mention) some
  apply stable.bind found
  intro parent
  apply stable.bind (stable.define _ _)
  intro _
  apply stable.bind stable.current
  intro e
  -- What remains is the same for each environment that the methods close over.
  have rest : ∀ inner, Run.Obeys R (do
      let table ← Run.methodTable inner methods
      let c ← Run.change (·.newClass ⟨name.name, parent, table⟩)
      let holder ← Run.ofRuntime (← Run.ask (·.holder e name))
      Run.defineIn holder name.name (.class c)) := fun inner =>
    stable.bind (stable.methodTable inner methods) fun _ =>
      stable.bind (stable.change fun _ => .newClass _) fun _ =>
        stable.bind (stable.ask _) fun found => stable.bind (stable.ofRuntime found) fun _ =>
          stable.defineIn _ _ _
  cases parent with
  | none => exact stable.bind (stable.pure e) rest
  | some c => exact stable.bind (stable.change fun _ => .newEnvironment _) rest

/-! ## Properties -/

theorem property (object : Value) (key : Occurrence) : Run.Obeys R (Run.property object key) := by
  cases object with
  | «instance» i =>
    apply stable.bind (stable.ask _)
    intro found
    apply stable.bind (stable.ofRuntime found)
    intro member
    cases member with
    | field value => exact stable.pure value
    | method f => exact stable.bind (stable.bindMethod f i) fun _ => stable.pure _
  | _ => exact stable.fail _ _

theorem superMethod (keyword : Occurrence) (method : Occurrence) :
    Run.Obeys R (Run.superMethod keyword method) := by
  apply stable.bind (stable.distance? keyword)
  intro distance
  cases distance with
  | none => exact stable.throw _
  | some distance =>
    apply stable.bind stable.current
    intro e
    apply stable.bind (stable.ask _)
    intro found
    apply stable.bind (stable.ofInternal found)
    intro superclass
    apply stable.bind (stable.ask _)
    intro found
    apply stable.bind (stable.ofInternal found)
    intro object
    split
    · apply stable.bind (stable.ask _)
      intro found
      cases found with
      | none => exact stable.fail _ _
      | some f => exact stable.bind (stable.bindMethod f _) fun _ => stable.pure _
    · exact stable.throw _

theorem assignProperty (object : Value) (key : Occurrence) {value : Run Value}
    (obeys : Run.Obeys R value) : Run.Obeys R (Run.assignProperty object key value) := by
  cases object with
  | «instance» i =>
    exact stable.bind obeys fun v => stable.bind (stable.change fun _ => .setField i _ v) fun _ =>
      stable.pure v
  | _ => exact stable.fail _ _

theorem operation (operator : Occurrence) (result : Except RuntimeFault Value) :
    Run.Obeys R (Run.operation operator result : Run Value) := by
  cases result with
  | ok value => exact stable.pure value
  | error fault => exact stable.fail _ _

/-! ## Calls -/

section Calls

variable {execute : Stmt → Run Unit} (executes : ∀ s, Run.Obeys R (execute s))
include executes

theorem block (body : List Stmt) : Run.Obeys R (Run.block execute body) :=
  stable.bind stable.current fun _ => stable.bind (stable.change fun _ => .newEnvironment _) fun e =>
    stable.inEnvironment (stable.forM executes body) e

theorem callFunction (f : FunctionId) (arguments : List Value) :
    Run.Obeys R (Run.callFunction execute f arguments) := by
  apply stable.bind (stable.ask _)
  intro closure
  apply stable.bind (stable.change fun _ => .newEnvironment _)
  intro e
  apply stable.bind
    (catchReturn (stable.inEnvironment (stable.forM executes closure.declaration.body) e))
  intro result
  cases closure.isInitializer with
  | true => exact stable.bind (stable.ask _) stable.ofInternal
  | false => exact stable.pure result

theorem callClass (c : ClassId) (arguments : List Value) :
    Run.Obeys R (Run.callClass execute c arguments) := by
  apply stable.bind (stable.change fun _ => .newInstance c)
  intro object
  apply stable.bind (stable.ask _)
  intro found
  cases found with
  | none => exact stable.pure _
  | some initializer =>
    exact stable.bind (stable.bindMethod initializer object) fun bound =>
      stable.bind (stable.callFunction executes bound arguments) fun _ => stable.pure _

omit executes in
theorem callNative (n : NativeId) (arguments : List Value) :
    Run.Obeys R (Run.callNative n arguments) := by
  apply stable.bind (stable.ask _)
  intro native
  cases native.body with
  | clock => exact stable.readings
  | compute result => exact stable.pure _

theorem callChecked (paren : Occurrence) (callee : Value) (arguments : List Value) :
    Run.Obeys R (Run.callChecked execute paren callee arguments) := by
  apply stable.bind (stable.ask _)
  intro arity
  cases arity with
  | none => exact stable.fail _ _
  | some arity =>
    dsimp only
    split
    · cases callee with
      | native n => exact stable.callNative n arguments
      | function f => exact stable.callFunction executes f arguments
      | «class» c => exact stable.callClass executes c arguments
      | _ => exact stable.pure _
    · exact stable.fail _ _

end Calls

/-! ## Trees -/

section Step

variable {loops depth : Nat} (evaluates : ∀ e, Run.Obeys R (evaluate loops depth e))
  (executes : ∀ s, Run.Obeys R (execute loops depth s))

include evaluates executes in
theorem evaluate_succ (e : Expr) : Run.Obeys R (evaluate loops (depth + 1) e) := by
  rw [evaluate.eq_def]
  cases e with
  | literal value => exact stable.pure _
  | grouping inner => exact evaluates inner
  | name mention => exact stable.lookUp mention
  | assign mention value =>
    exact stable.bind (evaluates value) fun v => stable.bind (stable.assign mention v) fun _ =>
      stable.pure v
  | unary operator operand =>
    exact stable.bind (evaluates operand) fun _ => stable.operation operator _
  | binary left operator right =>
    exact stable.bind (evaluates left) fun _ => stable.bind (evaluates right) fun _ =>
      stable.operation operator _
  | logical left operator right =>
    apply stable.bind (evaluates left)
    intro l
    cases Run.decides operator.token.kind l with
    | true => exact stable.pure l
    | false => exact evaluates right
  | call callee paren arguments =>
    exact stable.bind (evaluates callee) fun f => stable.bind (stable.mapM evaluates arguments)
      fun vs => stable.callChecked executes paren f vs
  | get object name => exact stable.bind (evaluates object) fun v => stable.property v name
  | set object name value =>
    exact stable.bind (evaluates object) fun v => stable.assignProperty v name (evaluates value)
  | this keyword => exact stable.lookUp keyword
  | super keyword method => exact stable.superMethod keyword method

/-- What goes on with the value of an optional part, or with `nil`. -/
theorem optional {f : Value → Run Unit} (evaluates : ∀ e, Run.Obeys R (evaluate loops depth e))
    (rest : ∀ v, Run.Obeys R (f v)) (value : Option Expr) :
    Run.Obeys R (match value with
      | none => Pure.pure .nil >>= f
      | some e => evaluate loops depth e >>= f) := by
  cases value with
  | none => exact stable.bind (stable.pure _) rest
  | some e => exact stable.bind (evaluates e) rest

include evaluates executes in
theorem execute_succ (s : Stmt) : Run.Obeys R (execute loops (depth + 1) s) := by
  rw [execute.eq_def]
  cases s with
  | expression value => exact stable.bind (evaluates value) fun _ => stable.pure ()
  | print value =>
    exact stable.bind (evaluates value) fun v m => stable.printed m (m.heap.display v)
  | var name initializer =>
    exact stable.optional evaluates (fun v => stable.define name.lexeme v) initializer
  | block body => exact stable.block executes body
  | ite condition thenBranch elseBranch =>
    apply stable.bind (evaluates condition)
    intro v
    cases v.isTruthy with
    | true => exact executes thenBranch
    | false =>
      cases elseBranch with
      | none => exact stable.pure ()
      | some elseBranch => exact executes elseBranch
  | «while» condition body =>
    exact stable.repeatWhile (stable.map (evaluates condition) _) (executes body) loops
  | function declaration => exact stable.declareFunction declaration
  | «return» keyword value => exact stable.optional evaluates (fun v => stable.throw _) value
  | «class» name superclass methods => exact stable.declareClass name superclass methods

end Step

/-- Every run of a tree obeys a stable relation: the induction is on how deeply the run nests. -/
theorem evaluation (loops depth : Nat) :
    (∀ e, Run.Obeys R (evaluate loops depth e)) ∧ ∀ s, Run.Obeys R (execute loops depth s) := by
  induction depth with
  | zero => exact ⟨fun _ => stable.throw _, fun _ => stable.throw _⟩
  | succ depth inductionHypothesis =>
    obtain ⟨evaluates, executes⟩ := inductionHypothesis
    exact ⟨stable.evaluate_succ evaluates executes, stable.execute_succ evaluates executes⟩

theorem interpret (loops depth : Nat) (program : List Stmt) (m : Machine) :
    R m (interpret loops depth program m).2 := by
  have here := stable.forM (stable.evaluation loops depth).2 program m
  unfold Lox.interpret
  unfold Run.left at here
  cases result : program.forM (execute loops depth) m <;> simpa only [result] using here

end Machine.Stable

end Lox
