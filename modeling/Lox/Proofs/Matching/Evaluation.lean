import Lox.Proofs.Matching.Machines

/-!
# Matching programs run alike

By induction on the depth: expressions and statements that match, run on machines that match, end in
machines that match, with the same value or with the same signal at a matching token.
-/

namespace Lox

open Run

variable {K : Pairing}

/-! ## Names -/

theorem lookUp_matched {o o' : Occurrence} (mentions : K.matching.occurrences o o') :
    Run.Matched K Eq (lookUp o) (lookUp o') := by
  apply (Matched.distance? mentions).bind
  rintro distance _ rfl
  cases distance with
  | some distance =>
    apply Matched.current.bind
    rintro e _ rfl
    rw [Matching.name mentions]
    apply (Matched.ask fun h h' matched =>
      (Heap.lookUpAt_congr matched.environments e distance o.name).symm).bind
    rintro found _ rfl
    exact .ofInternal found
  | none =>
    apply Matched.globals.bind
    rintro e _ rfl
    apply (Matched.ask fun h h' matched => matched.lookUp e mentions).bind
    exact fun _ _ => .ofRuntime

theorem assign_matched {o o' : Occurrence} (mentions : K.matching.occurrences o o') (value : Value) :
    Run.Matched K Eq (assign o value) (assign o' value) := by
  apply (Matched.distance? mentions).bind
  rintro distance _ rfl
  rw [Matching.name mentions]
  cases distance with
  | some distance =>
    apply Matched.current.bind
    rintro e _ rfl
    apply (Matched.ask fun h h' matched =>
      (Heap.holderAt_congr matched.environments e distance o.name).symm).bind
    rintro found _ rfl
    apply (Matched.ofInternal found).bind
    rintro holder _ rfl
    exact .defineIn holder _ value
  | none =>
    apply Matched.globals.bind
    rintro e _ rfl
    apply (Matched.ask fun h h' matched => matched.holder e mentions).bind
    intro found found' holders
    apply (Matched.ofRuntime holders).bind
    rintro holder _ rfl
    exact .defineIn holder _ value

/-! ## Calls -/

section Calls

variable {execute : Stmt → Run Unit}
  (executes : ∀ s s', s.Matched K.matching s' → Run.Matched K Eq (execute s) (execute s'))
include executes

theorem callFunction_matched (f : FunctionId) (arguments : List Value) :
    Run.Matched K Eq (callFunction execute f arguments) (callFunction execute f arguments) := by
  apply (Matched.ask fun h h' matched => matched.functions f).bind
  intro closure closure' closures
  have parameters := closures.parameterTable arguments
  dsimp only
  rw [parameters, closures.environment, closures.isInitializer]
  apply (Matched.change fun h h' matched =>
    (matched.newEnvironment _).imp_left Eq.symm).bind
  rintro e _ rfl
  apply (Matched.catchReturn (.inEnvironment e (.forM executes closures.body))).bind
  rintro result _ rfl
  cases closure.isInitializer with
  | false => exact .pure rfl
  | true =>
    apply (Matched.ask fun h h' matched =>
      (Heap.lookUpAt_congr matched.environments closure.environment 0 "this").symm).bind
    rintro found _ rfl
    exact .ofInternal found

theorem callClass_matched (c : ClassId) (arguments : List Value) :
    Run.Matched K Eq (callClass execute c arguments) (callClass execute c arguments) := by
  apply (Matched.change fun h h' matched => (matched.newInstance c).imp_left Eq.symm).bind
  rintro object _ rfl
  apply (Matched.ask fun h h' matched => (matched.method? c initializerName).symm).bind
  rintro initializer _ rfl
  cases initializer with
  | none => exact .pure rfl
  | some initializer =>
    apply (Matched.change fun h h' matched =>
      (matched.bind initializer object).imp_left Eq.symm).bind
    rintro bound _ rfl
    apply (callFunction_matched executes bound arguments).bind
    intro _ _ _
    exact .pure rfl

omit executes in
theorem callNative_matched (n : NativeId) (arguments : List Value) :
    Run.Matched K Eq (callNative n arguments) (callNative n arguments) := by
  apply (Matched.ask fun h h' matched => (matched.nativeAt n).symm).bind
  rintro native _ rfl
  cases native.body with
  | clock => exact .readClock
  | compute result => exact .pure rfl

theorem call_matched (callee : Value) (arguments : List Value) :
    Run.Matched K Eq (call execute callee arguments) (call execute callee arguments) := by
  cases callee with
  | native n => exact callNative_matched n arguments
  | function f => exact callFunction_matched executes f arguments
  | «class» c => exact callClass_matched executes c arguments
  | _ => exact .pure rfl

theorem callChecked_matched {paren paren' : Occurrence}
    (parens : K.matching.occurrences paren paren')
    (callee : Value) (arguments : List Value) :
    Run.Matched K Eq (callChecked execute paren callee arguments)
      (callChecked execute paren' callee arguments) := by
  apply (Matched.ask fun h h' matched => (matched.arity? callee).symm).bind
  rintro arity _ rfl
  cases arity with
  | none => exact .fail parens _
  | some arity =>
    dsimp only
    split
    · exact call_matched executes callee arguments
    · exact .fail parens _

end Calls

/-! ## Properties -/

theorem property_matched (object : Value) {key key' : Occurrence}
    (names : K.matching.occurrences key key') :
    Run.Matched K Eq (property object key) (property object key') := by
  cases object with
  | «instance» i =>
    apply (Matched.ask fun h h' matched => matched.member i names).bind
    intro found found' members
    apply (Matched.ofRuntime members).bind
    rintro member _ rfl
    cases member with
    | field value => exact .pure rfl
    | method f =>
      apply (Matched.change fun h h' matched => (matched.bind f i).imp_left Eq.symm).bind
      rintro bound _ rfl
      exact .pure rfl
  | _ => exact .fail names _

theorem assignProperty_matched (object : Value) {key key' : Occurrence}
    (names : K.matching.occurrences key key') {value value' : Run Value}
    (values : Run.Matched K Eq value value') :
    Run.Matched K Eq (assignProperty object key value) (assignProperty object key' value') := by
  cases object with
  | «instance» i =>
    apply values.bind
    rintro v _ rfl
    rw [Matching.name names]
    apply (Matched.setField i key.name v).bind
    intro _ _ _
    exact .pure rfl
  | _ => exact .fail names _

theorem superMethod_matched {keyword keyword' : Occurrence}
    (keywords : K.matching.occurrences keyword keyword') {method method' : Occurrence}
    (methods : K.matching.occurrences method method') :
    Run.Matched K Eq (superMethod keyword method) (superMethod keyword' method') := by
  apply (Matched.distance? keywords).bind
  rintro distance _ rfl
  cases distance with
  | none => exact .throw .unresolvedSuper
  | some distance =>
    apply Matched.current.bind
    rintro e _ rfl
    apply (Matched.ask fun h h' matched =>
      (Heap.lookUpAt_congr matched.environments e distance "super").symm).bind
    rintro found _ rfl
    apply (Matched.ofInternal found).bind
    rintro superclass _ rfl
    apply (Matched.ask fun h h' matched =>
      (Heap.lookUpAt_congr matched.environments e ((distance : Int) - 1) "this").symm).bind
    rintro found _ rfl
    apply (Matched.ofInternal found).bind
    rintro object _ rfl
    split
    · rw [Matching.name methods]
      apply (Matched.ask fun h h' matched => (matched.method? _ method.name).symm).bind
      rintro found _ rfl
      cases found with
      | none => exact .fail methods _
      | some f =>
        apply (Matched.change fun h h' matched => (matched.bind f _).imp_left Eq.symm).bind
        rintro bound _ rfl
        exact .pure rfl
    · exact .throw (.internal _)

/-! ## Declarations -/

theorem block_matched {execute : Stmt → Run Unit}
    (executes : ∀ s s', s.Matched K.matching s' → Run.Matched K Eq (execute s) (execute s'))
    {body body' : List Stmt} (bodies : List.Forall₂ (Stmt.Matched K.matching) body body') :
    Run.Matched K Eq (block execute body) (block execute body') := by
  apply Matched.current.bind
  rintro outer _ rfl
  apply (Matched.change fun h h' matched => (matched.newEnvironment _).imp_left Eq.symm).bind
  rintro e _ rfl
  exact .inEnvironment e (.forM executes bodies)

theorem newFunction_matched {f f' : Function} (functions : f.Matched K.matching f')
    (e : EnvironmentId) (isInitializer : Bool) :
    Run.Matched K Eq (change (·.newFunction ⟨f, e, isInitializer⟩))
      (change (·.newFunction ⟨f', e, isInitializer⟩)) :=
  .change fun _ _ matched =>
    (matched.newFunction (functions.closure e isInitializer)).imp_left Eq.symm

theorem declareFunction_matched {f f' : Function} (functions : f.Matched K.matching f') :
    Run.Matched K Eq (declareFunction f) (declareFunction f') := by
  apply Matched.current.bind
  rintro e _ rfl
  apply (newFunction_matched functions e false).bind
  rintro made _ rfl
  rw [Matching.lexeme functions.name]
  exact .define _ _

theorem superclassOf_matched {o o' : Occurrence} (mentions : K.matching.occurrences o o') :
    Run.Matched K Eq (superclassOf o) (superclassOf o') := by
  apply (lookUp_matched mentions).bind
  rintro value _ rfl
  cases value with
  | «class» c => exact .pure rfl
  | _ => exact .fail mentions _

theorem methodTable_matched (e : EnvironmentId) {methods methods' : List Function}
    (related : List.Forall₂ (Function.Matched K.matching) methods methods') :
    Run.Matched K Eq (methodTable e methods) (methodTable e methods') := by
  apply Run.Matched.foldlM _ related
  intro table method method' matched
  rw [matched.isInitializer]
  apply (newFunction_matched matched e _).bind
  rintro made _ rfl
  rw [Matching.lexeme matched.name]
  exact .pure rfl

theorem declareClass_matched {name name' : Occurrence} (names : K.matching.occurrences name name')
    {superclass superclass' : Option Occurrence}
    (parents : Option.Rel K.matching.occurrences superclass superclass')
    {methods methods' : List Function}
    (related : List.Forall₂ (Function.Matched K.matching) methods methods') :
    Run.Matched K Eq (declareClass name superclass methods)
      (declareClass name' superclass' methods') := by
  have parent : Run.Matched K Eq (superclass.mapM superclassOf) (superclass'.mapM superclassOf) := by
    cases parents with
    | none => exact .pure rfl
    | some mentions => exact (superclassOf_matched mentions).map fun _ _ => congrArg some
  apply parent.bind
  rintro parent _ rfl
  rw [Matching.name names]
  apply (Matched.define name.name .nil).bind
  intro _ _ _
  apply Matched.current.bind
  rintro e _ rfl
  -- what follows is the same for each environment that the methods close over
  have rest : ∀ inner, Run.Matched K Eq
      (do
        let table ← methodTable inner methods
        let c ← change (·.newClass ⟨name.name, parent, table⟩)
        let holder ← ofRuntime (← ask (·.holder e name))
        defineIn holder name.name (.class c))
      (do
        let table ← methodTable inner methods'
        let c ← change (·.newClass ⟨name.name, parent, table⟩)
        let holder ← ofRuntime (← ask (·.holder e name'))
        defineIn holder name.name (.class c)) := by
    intro inner
    apply (methodTable_matched inner related).bind
    rintro table _ rfl
    apply (Matched.change fun h h' matched => (matched.newClass _).imp_left Eq.symm).bind
    rintro made _ rfl
    apply (Matched.ask fun h h' matched => matched.holder e names).bind
    intro found found' holders
    apply (Matched.ofRuntime holders).bind
    rintro holder _ rfl
    exact .defineIn holder _ _
  cases parent with
  | none => exact rest e
  | some c =>
    apply (Matched.change fun h h' matched => (matched.newEnvironment _).imp_left Eq.symm).bind
    rintro inner _ rfl
    exact rest inner

/-! ## Evaluation -/

theorem operation_matched {operator operator' : Occurrence}
    (operators : K.matching.occurrences operator operator') (result : Except RuntimeFault Value) :
    Run.Matched K Eq (operation operator result) (operation operator' result) := by
  cases result with
  | ok value => exact .pure rfl
  | error fault => exact .fail operators fault

/-- What goes on with the value of an optional part, or with `nil`. -/
theorem optional_matched {evaluate : Expr → Run Value}
    (evaluates : ∀ e e', e.Matched K.matching e' → Run.Matched K Eq (evaluate e) (evaluate e'))
    {f f' : Value → Run Unit} (rest : ∀ v, Run.Matched K Eq (f v) (f' v))
    (value value' : Option Expr) : Option.Rel (Expr.Matched K.matching) value value' →
    Run.Matched K Eq
      (match value with
        | none => pure .nil >>= f
        | some e => evaluate e >>= f)
      (match value' with
        | none => pure .nil >>= f'
        | some e => evaluate e >>= f') := by
  intro values
  cases values with
  | none => exact rest .nil
  | some values =>
    apply (evaluates _ _ values).bind
    rintro v _ rfl
    exact rest v

section Step

variable {loops depth : Nat}
  (evaluates : ∀ e e', e.Matched K.matching e' →
    Run.Matched K Eq (evaluate loops depth e) (evaluate loops depth e'))
  (executes : ∀ s s', s.Matched K.matching s' →
    Run.Matched K Eq (execute loops depth s) (execute loops depth s'))
include evaluates executes

theorem evaluate_succ_matched {e e' : Expr} (matched : e.Matched K.matching e') :
    Run.Matched K Eq (evaluate loops (depth + 1) e) (evaluate loops (depth + 1) e') := by
  rw [evaluate.eq_def, evaluate.eq_def loops (depth + 1) e']
  cases matched with
  | literal value => exact .pure rfl
  | grouping inner => exact evaluates _ _ inner
  | name target => exact lookUp_matched target
  | assign target value =>
    apply (evaluates _ _ value).bind
    rintro v _ rfl
    apply (assign_matched target v).bind
    intro _ _ _
    exact .pure rfl
  | unary operator operand =>
    apply (evaluates _ _ operand).bind
    rintro v _ rfl
    rw [Matching.kind (K.matching.token _ _ operator)]
    exact operation_matched operator _
  | binary left operator right =>
    apply (evaluates _ _ left).bind
    rintro l _ rfl
    apply (evaluates _ _ right).bind
    rintro r _ rfl
    rw [Matching.kind (K.matching.token _ _ operator)]
    exact operation_matched operator _
  | logical left operator right =>
    apply (evaluates _ _ left).bind
    rintro l _ rfl
    rw [Matching.kind (K.matching.token _ _ operator)]
    split
    · exact .pure rfl
    · exact evaluates _ _ right
  | call callee paren arguments =>
    apply (evaluates _ _ callee).bind
    rintro f _ rfl
    apply (Run.Matched.mapM evaluates arguments).bind
    rintro vs _ rfl
    exact callChecked_matched executes paren f vs
  | get object property =>
    apply (evaluates _ _ object).bind
    rintro v _ rfl
    exact property_matched v property
  | set object property value =>
    apply (evaluates _ _ object).bind
    rintro v _ rfl
    exact assignProperty_matched v property (evaluates _ _ value)
  | this keyword => exact lookUp_matched keyword
  | super keyword method => exact superMethod_matched keyword method

theorem execute_succ_matched {s s' : Stmt} (matched : s.Matched K.matching s') :
    Run.Matched K Eq (execute loops (depth + 1) s) (execute loops (depth + 1) s') := by
  rw [execute.eq_def, execute.eq_def loops (depth + 1) s']
  cases matched with
  | expression value =>
    apply (evaluates _ _ value).bind
    intro _ _ _
    exact .pure rfl
  | print value =>
    apply (evaluates _ _ value).bind
    rintro v _ rfl
    exact .print v
  | var name initializer =>
    refine optional_matched evaluates (fun v => ?_) _ _ initializer
    rw [Matching.lexeme name]
    exact .define _ v
  | block body => exact block_matched executes body
  | ite condition thenBranch elseBranch =>
    apply (evaluates _ _ condition).bind
    rintro v _ rfl
    split
    · exact executes _ _ thenBranch
    · cases elseBranch with
      | none => exact .pure rfl
      | some elseBranch => exact executes _ _ elseBranch
  | «while» condition body =>
    exact .repeatWhile ((evaluates _ _ condition).map fun _ _ => congrArg Value.isTruthy)
      (executes _ _ body) loops
  | function f => exact declareFunction_matched f
  | «return» keyword value =>
    exact optional_matched evaluates (fun v => .throw (.returned v)) _ _ value
  | «class» name superclass methods => exact declareClass_matched name superclass methods

end Step

theorem evaluation_matched (K : Pairing) (loops depth : Nat) :
    (∀ e e', e.Matched K.matching e' →
      Run.Matched K Eq (evaluate loops depth e) (evaluate loops depth e')) ∧
    ∀ s s', s.Matched K.matching s' →
      Run.Matched K Eq (execute loops depth s) (execute loops depth s') := by
  induction depth with
  | zero => exact ⟨fun _ _ _ => .throw .exhausted, fun _ _ _ => .throw .exhausted⟩
  | succ depth inductionHypothesis =>
    obtain ⟨evaluates, executes⟩ := inductionHypothesis
    exact ⟨fun _ _ => evaluate_succ_matched evaluates executes,
      fun _ _ => execute_succ_matched evaluates executes⟩

/-! ## Programs -/

inductive Outcome.Matched (M : Matching) : Outcome → Outcome → Prop
  | finished : Matched M .finished .finished
  | failed {error error' : RuntimeError} : error.Matched M error' →
      Matched M (.failed error) (.failed error')
  | escaped (escape : Escape) : Matched M (.escaped escape) (.escaped escape)

theorem Signal.Matched.outcome {M : Matching} {signal signal' : Signal}
    (matched : signal.Matched M signal') : signal.outcome.Matched M signal'.outcome := by
  cases matched with
  | failed error => exact .failed error
  | returned value => exact .escaped _
  | internal fault => exact .escaped _
  | unresolvedSuper => exact .escaped _
  | exhausted => exact .escaped _

theorem interpret_matched (loops depth : Nat) {program program' : Program}
    (trees : List.Forall₂ (Stmt.Matched K.matching) program program') {m m' : Machine}
    (machines : m.Matched K m') :
    (interpret loops depth program m).1.Matched K.matching (interpret loops depth program' m').1 ∧
      (interpret loops depth program m).2.Matched K (interpret loops depth program' m').2 := by
  have statements : Run.Matched K Eq (program.forM (execute loops depth))
      (program'.forM (execute loops depth)) := .forM (evaluation_matched K loops depth).2 trees
  have here := statements m m' machines
  rw [interpret, interpret]
  split at here
  · next ends ends' =>
    rw [ends, ends']
    exact ⟨.finished, here.1⟩
  · next ends ends' =>
    rw [ends, ends']
    exact ⟨here.2.outcome, here.1⟩
  · exact here.elim

/-- The second part of a program runs where the first one has finished. -/
theorem interpret_append {loops depth : Nat} {program : Program} {m : Machine}
    (finished : (interpret loops depth program m).1 = .finished) (program' : Program) :
    interpret loops depth (program ++ program') m =
      interpret loops depth program' (interpret loops depth program m).2 := by
  have parts : (program ++ program').forM (execute loops depth) =
      program.forM (execute loops depth) >>= fun _ => program'.forM (execute loops depth) :=
    List.forM_append
  have run := congrFun parts m
  simp only [Bind.bind, EStateM.bind] at run
  rw [interpret] at finished ⊢
  rw [interpret, interpret, run]
  cases first : program.forM (execute loops depth) m with
  | ok _ m' => rfl
  | error signal m' =>
    rw [first] at finished
    cases signal <;> cases finished

end Lox
