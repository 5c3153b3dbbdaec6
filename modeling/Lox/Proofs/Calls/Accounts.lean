import Lox.Proofs.Account.Silence
import Lox.Proofs.Evaluation.Access
import Lox.Proofs.Heap.Evolution

/-!
# Accounts of calls

An attended run notes each function that is called, with its arguments and the machine as it is when
the parameters have just been bound. Whatever the tree and the machine, a function is called with as
many arguments as it has parameters, for the callee has been asked how many it takes: a class is
asked before the instance is made whose initializer then runs.
-/

namespace Lox

variable {α β : Type}

/-! ## Functions stay -/

/-- Functions, once made, stay as they are. -/
structure Heap.KeepsFunctions (h h' : Heap) : Prop where
  count : h.functions.size ≤ h'.functions.size
  same : ∀ f : FunctionId, f.index < h.functions.size → h'.functionAt f = h.functionAt f

namespace Heap.KeepsFunctions

variable {h h' h'' : Heap}

theorem refl (h : Heap) : h.KeepsFunctions h := ⟨Nat.le_refl _, fun _ _ => rfl⟩

theorem trans (first : h.KeepsFunctions h') (second : h'.KeepsFunctions h'') :
    h.KeepsFunctions h'' :=
  ⟨Nat.le_trans first.count second.count, fun f inside =>
    (second.same f (Nat.lt_of_lt_of_le inside first.count)).trans (first.same f inside)⟩

theorem step (step : h.Step h') : h.KeepsFunctions h' :=
  ⟨step.preserves.functionCount, step.preserves.functions⟩

/-- Binding a method makes an environment and then a function. -/
theorem bind (h : Heap) (f : FunctionId) (i : InstanceId) : h.KeepsFunctions (h.bind f i).2 :=
  (step (.newEnvironment _)).trans (step (.newFunction _))

end Heap.KeepsFunctions

/-- A method that is bound keeps its declaration. -/
theorem Heap.declaration_bind (h : Heap) (f : FunctionId) (i : InstanceId) :
    ((h.bind f i).2.functionAt (h.bind f i).1).declaration = (h.functionAt f).declaration := by
  rw [bind]
  dsimp only [newEnvironment]
  rw [functionAt_newFunction, if_pos rfl]

theorem Machine.keepsFunctions_stable : Stable fun m m' => m.heap.KeepsFunctions m'.heap where
  refl m := .refl m.heap
  trans := .trans
  heap _ _ step := .step step
  printed m _ := .refl m.heap
  readings m := .refl m.heap
  inside _ within := within

/-! ## Calls that are refused -/

/-- A value that takes another number of arguments is not called: the machine stays as it was. -/
theorem Run.callChecked_wrongArity (execute : Stmt → Run Unit) (paren : Occurrence) {callee : Value}
    {arguments : List Value} {m : Machine} {arity : Nat} (takes : m.heap.arity? callee = some arity)
    (other : arguments.length ≠ arity) :
    Run.callChecked execute paren callee arguments m =
      .error (.failed ⟨.wrongArity arity arguments.length, paren⟩) m := by
  have asked : Run.ask (·.arity? callee) m = .ok (some arity) m := by rw [Run.ask, takes]
  rw [Run.callChecked, Run.bind_of_ok asked]
  dsimp only
  rw [if_neg other]
  rfl

/-! ## Activations -/

/-- A call of a function, before its body runs. -/
structure Activation where
  function : FunctionId
  arguments : List Value
  /-- The environment that was made for the parameters. -/
  frame : EnvironmentId
  machine : Machine

namespace Activation

def closure (a : Activation) : Closure := a.machine.heap.functionAt a.function

def environment (a : Activation) : Environment := a.machine.heap.environmentAt a.frame

/-- The environment of the call was made for its arguments, of which there are enough and no more. -/
structure Exact (a : Activation) : Prop where
  environment : a.environment =
    ⟨Run.parameterTable a.closure.declaration.parameters a.arguments, some a.closure.environment⟩
  arity : a.arguments.length = a.closure.declaration.arity

def scribe : Scribe Activation
  | machine, .called call arguments => some ⟨call.function, arguments, call.frame, machine⟩
  | _, _ => none

theorem scribe_ofCalls : scribe.OfCalls :=
  ⟨fun _ _ _ => rfl, fun _ _ _ _ _ => rfl, fun _ _ _ _ => rfl⟩

end Activation

abbrev Attended := Noted Activation

abbrev AttendedRun := NotedRun Activation

/-- The activations that are new are exact, and functions stay as they are from each of them on. -/
structure Attended.Gains (w w' : Attended) : Prop where
  functions : w.machine.heap.KeepsFunctions w'.machine.heap
  account : ∃ new, w'.notes = new ++ w.notes ∧
    ∀ a ∈ new, a.Exact ∧ a.machine.heap.KeepsFunctions w'.machine.heap

namespace Attended.Gains

variable {w w' w'' : Attended}

/-- No function is called. -/
theorem quiet (functions : w.machine.heap.KeepsFunctions w'.machine.heap)
    (same : w'.notes = w.notes) : w.Gains w' :=
  ⟨functions, [], same, by simp⟩

theorem refl (w : Attended) : w.Gains w := quiet (.refl _) rfl

theorem trans (first : w.Gains w') (second : w'.Gains w'') : w.Gains w'' := by
  obtain ⟨kept, new, split, exact⟩ := first
  obtain ⟨kept', new', split', exact'⟩ := second
  refine ⟨kept.trans kept', new' ++ new, by rw [split', split, List.append_assoc], ?_⟩
  refine List.forall_mem_append.2 ⟨exact', fun a member => ?_⟩
  obtain ⟨here, onward⟩ := exact a member
  exact ⟨here, onward.trans kept'⟩

end Attended.Gains

/-! ## Attended runs -/

/-- However the attended run ends from there, its account gains. -/
def GainsAt (w : Attended) (attended : AttendedRun α) : Prop :=
  match attended w with
  | .ok _ w' | .error _ w' => w.Gains w'

def Gains (attended : AttendedRun α) : Prop := ∀ w, GainsAt w attended

namespace GainsAt

variable {w : Attended} {attended : AttendedRun α}

theorem bind {f : α → AttendedRun β} (first : GainsAt w attended)
    (second : ∀ a w', GainsAt w' (f a)) : GainsAt w (attended >>= f) := by
  unfold GainsAt at first ⊢
  rw [show (attended >>= f) w = EStateM.bind attended f w from rfl, EStateM.bind]
  cases result : attended w with
  | error signal w' =>
    rw [result] at first
    exact first
  | ok a w' =>
    rw [result] at first
    have rest := second a w'
    unfold GainsAt at rest
    dsimp only at first ⊢
    cases result' : f a w' <;> rw [result'] at rest <;> exact first.trans rest

/-- A step after which the run goes on from `w'`. -/
theorem after {w' : Attended} (gains : w.Gains w') (rest : GainsAt w' attended)
    {attended' : AttendedRun α} (step : attended' w = attended w') : GainsAt w attended' := by
  unfold GainsAt at rest ⊢
  rw [step]
  cases result : attended w' <;> rw [result] at rest <;> exact gains.trans rest

/-- The heap is read, and the run goes on with what is found. -/
theorem ask {f : Heap → β} {attended : β → AttendedRun α}
    (rest : GainsAt w (attended (f w.machine.heap))) :
    GainsAt w (do attended (← NotedRun.lift (Run.ask f))) :=
  rest

/-- The heap is changed, and the run goes on with what the change yields. -/
theorem change {f : Heap → β × Heap} (kept : w.machine.heap.KeepsFunctions (f w.machine.heap).2)
    {attended : β → AttendedRun α}
    (rest : GainsAt { w with machine := { w.machine with heap := (f w.machine.heap).2 } }
      (attended (f w.machine.heap).1)) :
    GainsAt w (do attended (← NotedRun.lift (Run.change f))) := by
  have gains : w.Gains ⟨{ w.machine with heap := (f w.machine.heap).2 }, w.notes⟩ :=
    .quiet kept rfl
  exact after gains rest rfl

theorem called {call : Invocation} {arguments : List Value}
    (exact : Activation.Exact ⟨call.function, arguments, call.frame, w.machine⟩)
    (rest : ∀ w', GainsAt w' attended) :
    GainsAt w (do NotedRun.note Activation.scribe (.called call arguments); attended) := by
  let activation : Activation := ⟨call.function, arguments, call.frame, w.machine⟩
  have gains : w.Gains ⟨w.machine, activation :: w.notes⟩ := by
    refine ⟨.refl _, [activation], rfl, fun a member => ?_⟩
    obtain rfl := List.mem_singleton.1 member
    exact ⟨exact, .refl _⟩
  exact after gains (rest _) rfl

end GainsAt

namespace Gains

open NotedRun

variable {attended : AttendedRun α}

theorem pure (a : α) : Gains (pure a) := fun w => .refl w

theorem throw (signal : Signal) : Gains (throw signal : AttendedRun α) := fun w => .refl w

theorem fail (token : Occurrence) (fault : RuntimeFault) :
    Gains (Run.fail token fault : AttendedRun α) :=
  throw _

theorem lift {run : Run α} (obeys : Run.Obeys (fun m m' => m.heap.KeepsFunctions m'.heap) run) :
    Gains (lift run) := by
  intro w
  have kept := obeys w.machine
  unfold Run.left at kept
  unfold GainsAt NotedRun.lift
  cases result : run w.machine <;> rw [result] at kept <;> exact .quiet kept rfl

theorem bind (first : Gains attended) {f : α → AttendedRun β} (second : ∀ a, Gains (f a)) :
    Gains (attended >>= f) :=
  fun w => (first w).bind second

theorem map (gains : Gains attended) (f : α → β) : Gains (f <$> attended) :=
  gains.bind fun a => pure (f a)

/-- An occurrence that is looked up is no activation. -/
theorem mention (form : MentionForm) (o : Occurrence) (gains : Gains attended) :
    Gains (do note Activation.scribe (.mention form o); attended) :=
  gains

theorem inEnvironment (gains : Gains attended) (e : EnvironmentId) :
    Gains (inEnvironment e attended) := by
  intro w
  have here := gains { w with machine := { w.machine with current := e } }
  unfold GainsAt at here ⊢
  unfold NotedRun.inEnvironment
  dsimp only at here ⊢
  cases result : attended { w with machine := { w.machine with current := e } } <;>
    rw [result] at here <;> exact ⟨here.functions, here.account⟩

theorem catchReturn (gains : Gains attended) : Gains (Run.catchReturn attended) := by
  intro w
  have here := gains w
  unfold GainsAt at here ⊢
  unfold Run.catchReturn
  cases result : attended w with
  | ok a w' =>
    rw [result] at here
    exact here
  | error signal w' =>
    rw [result] at here
    cases signal <;> exact here

theorem repeatWhile {condition : AttendedRun Bool} {body : AttendedRun Unit}
    (tests : Gains condition) (gains : Gains body) (limit : Nat) :
    Gains (Run.repeatWhile condition body limit) := by
  induction limit with
  | zero => exact throw .exhausted
  | succ limit inductionHypothesis =>
    refine tests.bind fun holds => ?_
    cases holds with
    | true => exact gains.bind fun _ => inductionHypothesis
    | false => exact pure ()

theorem forM {f : α → AttendedRun Unit} (each : ∀ a, Gains (f a)) (items : List α) :
    Gains (items.forM f) := by
  induction items with
  | nil => exact pure ()
  | cons a rest inductionHypothesis => exact (each a).bind fun _ => inductionHypothesis

theorem mapM {f : α → AttendedRun β} (each : ∀ a, Gains (f a)) (items : List α) :
    Gains (items.mapM f) := by
  induction items with
  | nil => exact pure []
  | cons a rest inductionHypothesis =>
    rw [List.mapM_cons]
    exact (each a).bind fun b => inductionHypothesis.bind fun bs => pure (b :: bs)

theorem operation (operator : Occurrence) (result : Except RuntimeFault Value) :
    Gains (Run.operation operator result : AttendedRun Value) := by
  cases result with
  | ok a => exact pure a
  | error fault => exact fail operator fault

/-! ## Calls -/

section Calls

variable {attended : Stmt → AttendedRun Unit} (executes : ∀ s, Gains (attended s))
include executes

/-- Of a call it is noted that it begins, and not how it ends. -/
theorem invoke {w : Attended} {call : Invocation} {arguments : List Value}
    (exact : Activation.Exact ⟨call.function, arguments, call.frame, w.machine⟩) :
    GainsAt w (invoke Activation.scribe attended call arguments) := by
  have stable := Machine.keepsFunctions_stable
  have body : Gains (runBody Activation.scribe attended call) := by
    rw [runBody, catchReturn_of_none fun _ _ => rfl]
    refine (catchReturn (inEnvironment (forM executes _) call.frame)).bind fun result => lift ?_
    cases call.closure.isInitializer with
    | true => exact stable.bind (stable.ask _) stable.ofInternal
    | false => exact stable.pure result
  refine .called exact (body.bind fun value => ?_)
  rw [note_of_none fun _ => rfl, pure_bind]
  exact pure value

/-- A function that gets as many arguments as it has parameters. -/
theorem callFunction {w : Attended} {f : FunctionId} {arguments : List Value}
    (arity : arguments.length = (w.machine.heap.functionAt f).declaration.arity) :
    GainsAt w (callFunction Activation.scribe attended f arguments) := by
  refine .ask (.ask (.change (.step (.newEnvironment _)) (invoke executes ⟨?_, arity⟩)))
  exact (Heap.environmentAt_newEnvironment ..).trans (if_pos rfl)

/-- A class whose initializer, wherever it is found, has as many parameters. -/
theorem callClass {w : Attended} {c : ClassId} {arguments : List Value}
    (arity : arguments.length = w.machine.heap.classArity c) :
    GainsAt w (callClass Activation.scribe attended c arguments) := by
  refine .change (.step (.newInstance c)) (.ask ?_)
  rw [Heap.classArity] at arity
  -- To make the instance leaves the classes as they are, so the initializer is found as before.
  have search : (w.machine.heap.newInstance c).2.method? c initializerName =
      w.machine.heap.method? c initializerName := by
    apply Heap.method?_congr
    rfl
  rw [search]
  cases found : w.machine.heap.method? c initializerName with
  | none => exact pure _ _
  | some initializer =>
    dsimp only
    rw [Activation.scribe_ofCalls.bindTo]
    refine .change (.bind ..) (.bind (callFunction executes ?_) fun _ w' => pure _ w')
    have same := Heap.declaration_bind (w.machine.heap.newInstance c).2 initializer
      (w.machine.heap.newInstance c).1
    rw [found] at arity
    exact arity.trans (congrArg Function.arity same).symm

theorem callChecked (paren : Occurrence) (callee : Value) (arguments : List Value) :
    Gains (callChecked Activation.scribe attended paren callee arguments) := by
  have stable := Machine.keepsFunctions_stable
  intro w
  refine .ask ?_
  cases arity : w.machine.heap.arity? callee with
  | none => exact fail paren _ w
  | some arity =>
    dsimp only
    split
    · next same =>
      -- Behind the check the number of arguments is the arity of the callee.
      subst same
      cases callee with
      | native n => exact lift (stable.callNative n arguments) w
      | function f => exact callFunction executes (Option.some.inj arity).symm
      | «class» c => exact callClass executes (Option.some.inj arity).symm
      | _ => cases arity
    · exact fail paren _ w

end Calls

/-! ## Trees -/

theorem assignProperty {value : AttendedRun Value} (gains : Gains value) (object : Value)
    (key : Occurrence) : Gains (assignProperty object key value) := by
  have stable := Machine.keepsFunctions_stable
  cases object with
  | «instance» i =>
    exact gains.bind fun v => (lift (stable.change fun _ => .setField i _ v)).bind fun _ => pure v
  | _ => exact fail key _

theorem block {attended : Stmt → AttendedRun Unit} (executes : ∀ s, Gains (attended s))
    (body : List Stmt) : Gains (block attended body) := by
  have stable := Machine.keepsFunctions_stable
  exact (lift stable.current).bind fun _ =>
    (lift (stable.change fun _ => .newEnvironment _)).bind fun e =>
      inEnvironment (forM executes body) e

section Step

variable {loops depth : Nat}
  (evaluates : ∀ e, Gains (NotedRun.evaluate Activation.scribe loops depth e))
  (executes : ∀ s, Gains (NotedRun.execute Activation.scribe loops depth s))

include evaluates executes in
theorem evaluate_succ (e : Expr) :
    Gains (NotedRun.evaluate Activation.scribe loops (depth + 1) e) := by
  have stable := Machine.keepsFunctions_stable
  rw [NotedRun.evaluate.eq_def]
  cases e with
  | literal value => exact pure _
  | grouping inner => exact evaluates inner
  | name mention => exact .mention .variable mention (lift (stable.lookUp mention))
  | assign mention value =>
    exact (evaluates value).bind fun v => .mention .assignment mention
      ((lift (stable.assign mention v)).bind fun _ => pure v)
  | unary operator operand => exact (evaluates operand).bind fun _ => operation operator _
  | binary left operator right =>
    exact (evaluates left).bind fun _ => (evaluates right).bind fun _ => operation operator _
  | logical left operator right =>
    refine (evaluates left).bind fun l => ?_
    cases Run.decides operator.token.kind l with
    | true => exact pure l
    | false => exact evaluates right
  | call callee paren arguments =>
    exact (evaluates callee).bind fun f => (mapM evaluates arguments).bind fun vs =>
      callChecked executes paren f vs
  | get object name =>
    simp only [Activation.scribe_ofCalls.property]
    exact (evaluates object).bind fun v => lift (stable.property v name)
  | set object name value =>
    exact (evaluates object).bind fun v => assignProperty (evaluates value) v name
  | this keyword => exact .mention .this keyword (lift (stable.lookUp keyword))
  | super keyword method =>
    simp only [Activation.scribe_ofCalls.superMethod]
    exact .mention .super keyword (lift (stable.superMethod keyword method))

include evaluates executes in
theorem execute_succ (s : Stmt) :
    Gains (NotedRun.execute Activation.scribe loops (depth + 1) s) := by
  have stable := Machine.keepsFunctions_stable
  rw [NotedRun.execute.eq_def]
  cases s with
  | expression value => exact (evaluates value).bind fun _ => pure ()
  | print value =>
    exact (evaluates value).bind fun v => lift fun m => stable.printed m (m.heap.display v)
  | var name initializer =>
    have rest := fun v => lift (stable.define name.lexeme v)
    cases initializer with
    | none => exact (pure Value.nil).bind rest
    | some e => exact (evaluates e).bind rest
  | block body => exact block executes body
  | ite condition thenBranch elseBranch =>
    refine (evaluates condition).bind fun v => ?_
    cases v.isTruthy with
    | true => exact executes thenBranch
    | false =>
      cases elseBranch with
      | none => exact pure ()
      | some elseBranch => exact executes elseBranch
  | «while» condition body => exact repeatWhile ((evaluates condition).map _) (executes body) loops
  | function declaration => exact lift (stable.declareFunction declaration)
  | «return» keyword value =>
    have rest : ∀ v, Gains (raise Activation.scribe (.return keyword value) v) := by
      intro v
      rw [raise_of_none fun _ => rfl]
      exact throw _
    cases value with
    | none => exact (pure Value.nil).bind rest
    | some e => exact (evaluates e).bind rest
  | «class» name superclass methods =>
    dsimp only
    rw [Activation.scribe_ofCalls.declareClass]
    exact lift (stable.declareClass name superclass methods)

end Step

/-- The induction is on how deeply the run nests. -/
theorem evaluation (loops depth : Nat) :
    (∀ e, Gains (NotedRun.evaluate Activation.scribe loops depth e)) ∧
      ∀ s, Gains (NotedRun.execute Activation.scribe loops depth s) := by
  induction depth with
  | zero => exact ⟨fun _ => throw .exhausted, fun _ => throw .exhausted⟩
  | succ depth inductionHypothesis =>
    obtain ⟨evaluates, executes⟩ := inductionHypothesis
    exact ⟨evaluate_succ evaluates executes, execute_succ evaluates executes⟩

end Gains

/-- The activations that the account of a program adds are exact. -/
theorem interpret_gains (loops depth : Nat) (program : List Stmt) (w : Attended) :
    w.Gains (NotedRun.interpret Activation.scribe loops depth program w).2 := by
  have gains := Gains.forM (Gains.evaluation loops depth).2 program w
  unfold GainsAt at gains
  unfold NotedRun.interpret
  cases result : program.forM (NotedRun.execute Activation.scribe loops depth) w <;>
    rw [result] at gains <;> exact gains

end Lox
