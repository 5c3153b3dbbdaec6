import Lox.Proofs.Account.Incidents

/-!
# A noted run is a run

Without its account a noted run is the run that it tells of: the same result or signal, and the same
machine, whoever the scribe is.
-/

namespace Lox

variable {ν α β : Type}

/-- The result without the account of the run. -/
def forget : EStateM.Result Signal (Noted ν) α → EStateM.Result Signal Machine α
  | .ok a t => .ok a t.machine
  | .error signal t => .error signal t.machine

/-- A noted run that does just what the plain run does. -/
def Erases (noted : NotedRun ν α) (plain : Run α) : Prop :=
  ∀ t, forget (noted t) = plain t.machine

namespace Erases

open NotedRun

theorem lift (run : Run α) : Erases (ν := ν) (lift run) run := by
  intro t
  unfold NotedRun.lift
  cases result : run t.machine <;> rfl

theorem pure (a : α) : Erases (ν := ν) (pure a) (pure a) := fun _ => rfl

theorem throw (signal : Signal) : Erases (ν := ν) (α := α) (throw signal) (throw signal) :=
  fun _ => rfl

theorem bind {noted : NotedRun ν α} {plain : Run α} {f : α → NotedRun ν β} {g : α → Run β}
    (first : Erases noted plain) (second : ∀ a, Erases (f a) (g a)) :
    Erases (noted >>= f) (plain >>= g) := by
  intro t
  have here := first t
  rw [show (noted >>= f) t = EStateM.bind noted f t from rfl, EStateM.bind,
    show (plain >>= g) t.machine = EStateM.bind plain g t.machine from rfl, EStateM.bind]
  cases result : noted t with
  | error signal t' =>
    rw [result] at here
    rw [← here]
    rfl
  | ok a t' =>
    rw [result] at here
    rw [← here]
    exact second a t'

theorem map {noted : NotedRun ν α} {plain : Run α} (erases : Erases noted plain) (f : α → β) :
    Erases (f <$> noted) (f <$> plain) :=
  erases.bind fun a => pure (f a)

/-- The account may look at the heap where the run itself does not. -/
theorem peek {read : Heap → β} {f : β → NotedRun ν α} {plain : Run α}
    (rest : ∀ b, Erases (f b) plain) : Erases (NotedRun.lift (Run.ask read) >>= f) plain :=
  fun t => rest (read t.machine.heap) t

theorem inEnvironment {noted : NotedRun ν α} {plain : Run α} (erases : Erases noted plain)
    (e : EnvironmentId) : Erases (inEnvironment e noted) (Run.inEnvironment e plain) := by
  intro t
  have here := erases { t with machine := { t.machine with current := e } }
  unfold NotedRun.inEnvironment Run.inEnvironment
  dsimp only at here ⊢
  rw [← here]
  cases noted { t with machine := { t.machine with current := e } } <;> rfl

theorem repeatWhile {notedCondition : NotedRun ν Bool} {condition : Run Bool}
    {notedBody : NotedRun ν Unit} {body : Run Unit} (conditions : Erases notedCondition condition)
    (bodies : Erases notedBody body) (limit : Nat) :
    Erases (Run.repeatWhile notedCondition notedBody limit)
      (Run.repeatWhile condition body limit) := by
  induction limit with
  | zero => exact throw .exhausted
  | succ limit inductionHypothesis =>
    refine conditions.bind fun holds => ?_
    cases holds with
    | true => exact bodies.bind fun _ => inductionHypothesis
    | false => exact pure ()

theorem forM {f : α → NotedRun ν Unit} {g : α → Run Unit} (each : ∀ a, Erases (f a) (g a))
    (items : List α) : Erases (items.forM f) (items.forM g) := by
  induction items with
  | nil => exact pure ()
  | cons a rest inductionHypothesis => exact (each a).bind fun _ => inductionHypothesis

theorem mapM {f : α → NotedRun ν β} {g : α → Run β} (each : ∀ a, Erases (f a) (g a))
    (items : List α) : Erases (items.mapM f) (items.mapM g) := by
  induction items with
  | nil => exact pure []
  | cons a rest inductionHypothesis =>
    rw [List.mapM_cons, List.mapM_cons]
    exact (each a).bind fun b => inductionHypothesis.bind fun bs => pure (b :: bs)

theorem ofRuntime (result : Except RuntimeError α) :
    Erases (ν := ν) (Run.ofRuntime result) (Run.ofRuntime result) := by
  cases result with
  | ok a => exact pure a
  | error e => exact throw (.failed e)

theorem ofInternal (result : Except InternalFault α) :
    Erases (ν := ν) (Run.ofInternal result) (Run.ofInternal result) := by
  cases result with
  | ok a => exact pure a
  | error fault => exact throw (.internal fault)

theorem operation (operator : Occurrence) (result : Except RuntimeFault Value) :
    Erases (ν := ν) (Run.operation operator result) (Run.operation operator result) := by
  cases result with
  | ok a => exact pure a
  | error fault => exact throw (.failed ⟨fault, operator⟩)

theorem assignProperty {noted : NotedRun ν Value} {plain : Run Value} (erases : Erases noted plain)
    (object : Value) (key : Occurrence) :
    Erases (assignProperty object key noted) (Run.assignProperty object key plain) := by
  cases object with
  | «instance» i => exact erases.bind fun v => (lift _).bind fun _ => pure v
  | _ => exact throw _

theorem block {noted : Stmt → NotedRun ν Unit} {plain : Stmt → Run Unit}
    (executes : ∀ s, Erases (noted s) (plain s)) (body : List Stmt) :
    Erases (block noted body) (Run.block plain body) :=
  (lift _).bind fun _ => (lift _).bind fun e => inEnvironment (forM executes body) e

/-! ## Notes -/

variable (scribe : Scribe ν)

/-- To note an incident changes no machine. -/
theorem note (incident : Incident) {noted : NotedRun ν α} {plain : Run α}
    (erases : Erases noted plain) : Erases (do note scribe incident; noted) plain := by
  intro t
  change forget (EStateM.bind (NotedRun.note scribe incident) (fun _ => noted) t) = _
  rw [EStateM.bind, NotedRun.note]
  cases scribe t.machine incident with
  | none => exact erases t
  | some told => exact erases { t with notes := told :: t.notes }

theorem catchReturn (call : Invocation) {noted : NotedRun ν α} {plain : Run α}
    (erases : Erases noted plain) :
    Erases (catchReturn scribe call noted) (Run.catchReturn plain) := by
  intro t
  unfold NotedRun.catchReturn Run.catchReturn
  rw [← erases t]
  cases noted t with
  | ok a t' => rfl
  | error signal t' =>
    cases signal with
    | returned value => exact note scribe (.caught call value) (pure value) t'
    | _ => rfl

theorem bindTo (object : InstanceId) (method : FunctionId) :
    Erases (bindTo scribe object method) (Run.change (·.bind method object)) :=
  bind (lift (Run.change (·.bind method object))) fun made => note scribe _ (pure made)

/-! ## Calls -/

section Calls

variable {noted : Stmt → NotedRun ν Unit} {plain : Stmt → Run Unit}
variable (executes : ∀ s, Erases (noted s) (plain s))
include executes

theorem runBody (call : Invocation) :
    Erases (runBody scribe noted call)
      (do
        let result ← Run.catchReturn
          (Run.inEnvironment call.frame (call.closure.declaration.body.forM plain))
        if call.closure.isInitializer then do
          Run.ofInternal (← Run.ask (·.lookUpAt call.closure.environment 0 "this"))
        else return result) :=
  (catchReturn scribe call (inEnvironment (forM executes _) call.frame)).bind fun _ => lift _

theorem callFunction (f : FunctionId) (arguments : List Value) :
    Erases (callFunction scribe noted f arguments) (Run.callFunction plain f arguments) := by
  refine (lift _).bind fun closure => peek fun receiver => (lift _).bind fun frame =>
    note scribe _ ?_
  rw [← bind_pure (Run.catchReturn _ >>= _)]
  exact (runBody scribe executes ⟨f, closure, receiver, frame⟩).bind fun value =>
    note scribe _ (pure value)

theorem callClass (c : ClassId) (arguments : List Value) :
    Erases (callClass scribe noted c arguments) (Run.callClass plain c arguments) := by
  refine (lift _).bind fun object => (lift _).bind fun found => ?_
  cases found with
  | none => exact pure _
  | some initializer =>
    exact (bindTo scribe object initializer).bind fun made =>
      (callFunction scribe executes made arguments).bind fun _ => pure _

theorem call (callee : Value) (arguments : List Value) :
    Erases (call scribe noted callee arguments) (Run.call plain callee arguments) := by
  cases callee with
  | native n => exact lift _
  | function f => exact callFunction scribe executes f arguments
  | «class» c => exact callClass scribe executes c arguments
  | _ => exact pure _

theorem callChecked (paren : Occurrence) (callee : Value) (arguments : List Value) :
    Erases (callChecked scribe noted paren callee arguments)
      (Run.callChecked plain paren callee arguments) := by
  refine (lift _).bind fun arity => ?_
  cases arity with
  | none => exact throw _
  | some arity =>
    by_cases equal : arguments.length = arity
    · simp only [equal, if_true]
      exact call scribe executes callee arguments
    · simp only [equal, if_false]
      exact throw _

end Calls

theorem property (object : Value) (key : Occurrence) :
    Erases (property scribe object key) (Run.property object key) := by
  cases object with
  | «instance» i =>
    refine (lift _).bind fun found => (ofRuntime found).bind fun member => ?_
    cases member with
    | field value => exact pure value
    | method f => exact (bindTo scribe i f).bind fun _ => pure _
  | _ => exact throw _

theorem superMethod (keyword method : Occurrence) :
    Erases (superMethod scribe keyword method) (Run.superMethod keyword method) := by
  refine (lift _).bind fun distance => ?_
  cases distance with
  | none => exact throw _
  | some distance =>
    refine (lift _).bind fun e => (lift _).bind fun superclass => (ofInternal superclass).bind
      fun superclass => (lift _).bind fun object => (ofInternal object).bind fun object => ?_
    cases superclass with
    | «class» c =>
      cases object with
      | «instance» i =>
        refine (lift _).bind fun found => ?_
        cases found with
        | none => exact throw _
        | some f => exact (bindTo scribe i f).bind fun _ => pure _
      | _ => exact throw _
    | _ => exact throw _

theorem declareClass (text : ClassText) :
    Erases (declareClass scribe text)
      (Run.declareClass text.name text.superclass text.methods) := by
  have parents : Erases (text.superclass.mapM (superclassOf scribe))
      (text.superclass.mapM Run.superclassOf) := by
    cases text.superclass with
    | none => exact pure none
    | some mention => exact map (note scribe _ (lift _)) some
  refine parents.bind fun parent => (lift _).bind fun _ => (lift _).bind fun e => ?_
  have rest : ∀ inner, Erases (do
      let table ← NotedRun.lift (Run.methodTable inner text.methods)
      let made ← NotedRun.lift (Run.change (·.newClass ⟨text.name.name, parent, table⟩))
      NotedRun.note scribe (.declared text parent inner made)
      let holder ← Run.ofRuntime (← NotedRun.lift (Run.ask (·.holder e text.name)))
      NotedRun.lift (Run.defineIn holder text.name.name (.class made))) (do
      let table ← Run.methodTable inner text.methods
      let made ← Run.change (·.newClass ⟨text.name.name, parent, table⟩)
      let holder ← Run.ofRuntime (← Run.ask (·.holder e text.name))
      Run.defineIn holder text.name.name (.class made)) := fun inner =>
    (lift _).bind fun table => (lift _).bind fun made => note scribe _ ((lift _).bind fun holder =>
      (ofRuntime holder).bind fun holder => lift _)
  cases parent with
  | none => exact (pure e).bind rest
  | some c =>
    exact bind
      (lift (Run.change (·.newEnvironment ⟨Table.empty.insert "super" (.class c), some e⟩))) rest

/-! ## Evaluation -/

mutual

theorem evaluate (loops : Nat) :
    ∀ depth e, Erases (NotedRun.evaluate scribe loops depth e) (Lox.evaluate loops depth e)
  | 0, _ => throw .exhausted
  | depth + 1, e => by
    have again := evaluate loops depth
    rw [NotedRun.evaluate.eq_def, Lox.evaluate.eq_def]
    cases e with
    | literal value => exact pure _
    | grouping inner => exact again inner
    | name mention => exact note scribe _ (lift _)
    | assign mention value =>
      exact (again value).bind fun v => note scribe _ ((lift _).bind fun _ => pure v)
    | unary operator operand => exact (again operand).bind fun v => operation operator _
    | binary left operator right =>
      exact (again left).bind fun l => (again right).bind fun r => operation operator _
    | logical left operator right =>
      refine (again left).bind fun l => ?_
      cases Run.decides operator.token.kind l with
      | true => exact pure l
      | false => exact again right
    | call callee paren arguments =>
      exact (again callee).bind fun f => (mapM again arguments).bind fun vs =>
        callChecked scribe (execute loops depth) paren f vs
    | get object name => exact (again object).bind fun v => property scribe v name
    | set object name value =>
      exact (again object).bind fun v => assignProperty (again value) v name
    | this keyword => exact note scribe _ (lift _)
    | super keyword method => exact note scribe _ (superMethod scribe keyword method)

theorem execute (loops : Nat) :
    ∀ depth s, Erases (NotedRun.execute scribe loops depth s) (Lox.execute loops depth s)
  | 0, _ => throw .exhausted
  | depth + 1, s => by
    have evaluates := evaluate loops depth
    have executes := execute loops depth
    rw [NotedRun.execute.eq_def, Lox.execute.eq_def]
    cases s with
    | expression value => exact (evaluates value).bind fun _ => pure ()
    | print value => exact (evaluates value).bind fun v => lift _
    | var name initializer =>
      cases initializer with
      | none => exact (pure Value.nil).bind fun _ => lift _
      | some e => exact (evaluates e).bind fun _ => lift _
    | block body => exact block executes body
    | ite condition thenBranch elseBranch =>
      refine (evaluates condition).bind fun v => ?_
      cases v.isTruthy with
      | true => exact executes thenBranch
      | false =>
        cases elseBranch with
        | none => exact pure ()
        | some s => exact executes s
    | «while» condition body =>
      exact repeatWhile ((evaluates condition).map _) (executes body) loops
    | function declaration => exact lift _
    | «return» keyword value =>
      cases value with
      | none => exact (pure Value.nil).bind fun _ => note scribe _ (throw _)
      | some e => exact (evaluates e).bind fun _ => note scribe _ (throw _)
    | «class» name superclass methods => exact declareClass scribe ⟨name, superclass, methods⟩

end

end Erases

/-- To keep an account changes neither the outcome of a program nor the machine that it leaves. -/
theorem interpret_noted (scribe : Scribe ν) (loops depth : Nat) (program : List Stmt)
    (t : Noted ν) :
    interpret loops depth program t.machine =
      ((NotedRun.interpret scribe loops depth program t).1,
        (NotedRun.interpret scribe loops depth program t).2.machine) := by
  have erased := Erases.forM (Erases.execute scribe loops depth) program t
  unfold interpret NotedRun.interpret
  rw [← erased]
  cases program.forM (NotedRun.execute scribe loops depth) t <;> rfl

end Lox
