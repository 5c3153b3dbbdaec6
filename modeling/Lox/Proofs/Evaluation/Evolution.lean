import Lox.Proofs.Evaluation.Stability
import Lox.Proofs.Heap.Evolution

/-!
# Runs go on by lawful steps

From a founded heap every run goes on by lawful steps, of whatever tree and by whatever distances. Its
value is on the heap that it leaves, so that the next step may mention it.
-/

namespace Lox

section Runs

variable {α β γ : Type}

/-- The result of a run that goes on by lawful steps. -/
inductive Run.Arrives (m : Machine) (Q : Heap → α → Prop) : EStateM.Result Signal Machine α → Prop where
  | ok {a : α} {m' : Machine} : m.heap.Evolves m'.heap → Q m'.heap a → Arrives m Q (.ok a m')
  | error {signal : Signal} {m' : Machine} : m.heap.Evolves m'.heap →
      (∀ v, signal = .returned v → v.OnHeap m'.heap) → Arrives m Q (.error signal m')

/-- If the heap is founded, the run goes on by lawful steps, and its value is as described. -/
def Run.Lawful (m : Machine) (run : Run α) (Q : Heap → α → Prop) : Prop :=
  m.heap.Founded → Run.Arrives m Q (run m)

namespace Run.Lawful

variable {m : Machine} {Q : Heap → α → Prop} {R : Heap → β → Prop}

/-- However the run ends, the heap that it leaves has evolved. -/
theorem evolves {run : Run α} (lawful : Run.Lawful m run Q) (founded : m.heap.Founded) :
    m.heap.Evolves (run.left m).heap := by
  have arrives := lawful founded
  unfold Run.left
  generalize run m = result at arrives
  cases arrives with
  | ok evolves _ => exact evolves
  | error evolves _ => exact evolves

theorem pure {a : α} (described : Q m.heap a) : Run.Lawful m (pure a) Q :=
  fun _ => .ok .refl described

theorem throw {signal : Signal} (returned : ∀ v, signal = .returned v → v.OnHeap m.heap) :
    Run.Lawful m (throw signal) Q :=
  fun _ => .error .refl returned

theorem fail (token : Occurrence) (fault : RuntimeFault) : Run.Lawful m (Run.fail token fault) Q :=
  throw nofun

theorem bind {run : Run α} {f : α → Run β} (first : Run.Lawful m run Q)
    (second : ∀ a m', m.heap.Evolves m'.heap → Q m'.heap a → Run.Lawful m' (f a) R) :
    Run.Lawful m (run >>= f) R := by
  intro founded
  have here := first founded
  simp only [Bind.bind, EStateM.bind]
  generalize run m = result at here
  cases here with
  | error evolves returned => exact .error evolves returned
  | ok evolves described =>
    have later := second _ _ evolves described (founded.evolves evolves)
    dsimp only
    generalize f _ _ = result at later
    cases later with
    | ok more described => exact .ok (evolves.trans more) described
    | error more returned => exact .error (evolves.trans more) returned

theorem map {run : Run α} {f : α → β} (first : Run.Lawful m run Q) :
    Run.Lawful m (f <$> run) fun _ _ => True :=
  first.bind fun _ _ _ _ => pure trivial

theorem ofRuntime {result : Except RuntimeError α} (described : ∀ a, result = .ok a → Q m.heap a) :
    Run.Lawful m (Run.ofRuntime result) Q := by
  cases result with
  | ok a => exact pure (described a rfl)
  | error e => exact throw nofun

theorem ofInternal {result : Except InternalFault α}
    (described : ∀ a, result = .ok a → Q m.heap a) :
    Run.Lawful m (Run.ofInternal result) Q := by
  cases result with
  | ok a => exact pure (described a rfl)
  | error fault => exact throw nofun

/-- Something is read off the founded heap. -/
theorem ask {f : Heap → α} (described : m.heap.Founded → Q m.heap (f m.heap)) :
    Run.Lawful m (Run.ask f) Q :=
  fun founded => .ok .refl (described founded)

theorem current : Run.Lawful m Run.current fun _ _ => True := fun _ => .ok .refl trivial

theorem globals : Run.Lawful m Run.globals fun _ _ => True := fun _ => .ok .refl trivial

theorem distance? (mention : Occurrence) : Run.Lawful m (Run.distance? mention) fun _ _ => True :=
  fun _ => .ok .refl trivial

theorem print (v : Value) : Run.Lawful m (Run.print v) fun _ _ => True :=
  fun _ => .ok .refl trivial

theorem readClock : Run.Lawful m Run.readClock fun h v => v.OnHeap h :=
  fun _ => .ok .refl trivial

theorem change {f : Heap → α × Heap} (step : m.heap.Lawful (f m.heap).2)
    (described : Q (f m.heap).2 (f m.heap).1) : Run.Lawful m (Run.change f) Q :=
  fun _ => .ok (.single step) described

theorem defineIn (e : EnvironmentId) (name : String) {v : Value} (there : v.OnHeap m.heap) :
    Run.Lawful m (Run.defineIn e name v) fun _ _ => True :=
  change (.define e name there) trivial

theorem define (name : String) {v : Value} (there : v.OnHeap m.heap) :
    Run.Lawful m (Run.define name v) fun _ _ => True := by
  apply current.bind
  intro e m' evolves _
  exact defineIn e name (evolves.preserves.onHeap there)

theorem newEnvironment {env : Environment} (names : env.names.Each (·.OnHeap m.heap)) :
    Run.Lawful m (Run.change (·.newEnvironment env)) fun _ _ => True :=
  change (.newEnvironment env names) trivial

theorem newFunction (closure : Closure) :
    Run.Lawful m (Run.change (·.newFunction closure)) fun h f => f.index < h.functions.size :=
  change (.newFunction closure) (by simp [Heap.newFunction])

/-- To bind a method is to make an environment, which mentions the instance, and a function. -/
theorem bindMethod (f : FunctionId) {i : InstanceId} (there : i.index < m.heap.instances.size) :
    Run.Lawful m (Run.change (·.bind f i)) fun _ _ => True := by
  have receiver : (Table.empty.insert "this" (Value.instance i)).Each (·.OnHeap m.heap) :=
    Table.Each.empty.insert "this" there
  exact fun _ => .ok (.tail (.single (.newEnvironment _ receiver)) (.newFunction _)) trivial

/-! ### Control -/

theorem inEnvironment {run : Run α} (e : EnvironmentId)
    (body : ∀ m', m'.heap = m.heap → Run.Lawful m' run Q) :
    Run.Lawful m (Run.inEnvironment e run) Q := by
  intro founded
  have here := body { m with current := e } rfl founded
  simp only [Run.inEnvironment]
  generalize run { m with current := e } = result at here
  cases here with
  | ok evolves described => exact .ok evolves described
  | error evolves returned => exact .error evolves returned

theorem catchReturn {run : Run α} (body : Run.Lawful m run Q) :
    Run.Lawful m (Run.catchReturn run) fun h v => v.OnHeap h := by
  intro founded
  have here := body founded
  simp only [Run.catchReturn]
  generalize run m = result at here
  cases here with
  | ok evolves _ => exact .ok evolves trivial
  | @error signal m' evolves returned =>
    cases signal with
    | returned v => exact .ok evolves (returned v rfl)
    | failed | internal | unresolvedSuper | exhausted => exact .error evolves nofun

theorem repeatWhile {condition : Run Bool} {body : Run Unit}
    (conditions : ∀ m', Run.Lawful m' condition fun _ _ => True)
    (bodies : ∀ m', Run.Lawful m' body fun _ _ => True) (limit : Nat) :
    Run.Lawful m (Run.repeatWhile condition body limit) fun _ _ => True := by
  induction limit generalizing m with
  | zero => exact throw nofun
  | succ limit inductionHypothesis =>
    apply (conditions m).bind
    intro again m' _ _
    cases again with
    | true => exact (bodies m').bind fun _ _ _ _ => inductionHypothesis
    | false => exact pure trivial

theorem forM {f : γ → Run Unit} (each : ∀ x m', Run.Lawful m' (f x) fun _ _ => True)
    (items : List γ) : Run.Lawful m (items.forM f) fun _ _ => True := by
  induction items generalizing m with
  | nil => exact pure trivial
  | cons x rest inductionHypothesis =>
    exact (each x m).bind fun _ _ _ _ => inductionHypothesis

theorem mapM {f : γ → Run Value} (each : ∀ x m', Run.Lawful m' (f x) fun h v => v.OnHeap h)
    (items : List γ) : Run.Lawful m (items.mapM f) fun h vs => ∀ v ∈ vs, v.OnHeap h := by
  induction items generalizing m with
  | nil => exact pure nofun
  | cons x rest inductionHypothesis =>
    rw [List.mapM_cons]
    apply (each x m).bind
    intro v m₁ _ there
    apply inductionHypothesis.bind
    intro vs m₂ evolves others
    exact pure (List.forall_mem_cons.2 ⟨evolves.preserves.onHeap there, others⟩)

end Run.Lawful

end Runs

namespace Run

variable {m : Machine}

/-! ## Names -/

theorem lookUp_lawful (mention : Occurrence) :
    Run.Lawful m (lookUp mention) fun h v => v.OnHeap h := by
  apply (Lawful.distance? mention).bind
  intro distance m₁ _ _
  cases distance with
  | none =>
    apply Lawful.globals.bind
    intro e m₂ _ _
    apply (Lawful.ask (Q := fun h found => ∀ v, found = .ok v → v.OnHeap h)
      fun founded v => founded.lookUp).bind
    intro found m₃ _ described
    exact .ofRuntime described
  | some distance =>
    apply Lawful.current.bind
    intro e m₂ _ _
    apply (Lawful.ask (Q := fun h found => ∀ v, found = .ok v → v.OnHeap h)
      fun founded v => founded.lookUpAt).bind
    intro found m₃ _ described
    exact .ofInternal described

theorem assign_lawful (mention : Occurrence) {v : Value} (there : v.OnHeap m.heap) :
    Run.Lawful m (assign mention v) fun _ _ => True := by
  apply (Lawful.distance? mention).bind
  intro distance m₁ evolves₁ _
  cases distance with
  | none =>
    apply Lawful.globals.bind
    intro e m₂ evolves₂ _
    apply (Lawful.ask (Q := fun _ _ => True) fun _ => trivial).bind
    intro found m₃ evolves₃ _
    apply (Lawful.ofRuntime (Q := fun _ _ => True) fun _ _ => trivial).bind
    intro holder m₄ evolves₄ _
    have evolves := ((evolves₁.trans evolves₂).trans evolves₃).trans evolves₄
    exact .defineIn holder _ (Heap.Evolves.preserves evolves |>.onHeap there)
  | some distance =>
    apply Lawful.current.bind
    intro e m₂ evolves₂ _
    apply (Lawful.ask (Q := fun _ _ => True) fun _ => trivial).bind
    intro found m₃ evolves₃ _
    apply (Lawful.ofInternal (Q := fun _ _ => True) fun _ _ => trivial).bind
    intro holder m₄ evolves₄ _
    have evolves := ((evolves₁.trans evolves₂).trans evolves₃).trans evolves₄
    exact .defineIn holder _ (Heap.Evolves.preserves evolves |>.onHeap there)

/-! ## Calls -/

section Calls

variable {execute : Stmt → Run Unit} (executes : ∀ s m, Run.Lawful m (execute s) fun _ _ => True)
include executes

theorem callFunction_lawful (f : FunctionId) {arguments : List Value}
    (there : ∀ v ∈ arguments, v.OnHeap m.heap) :
    Run.Lawful m (callFunction execute f arguments) fun h v => v.OnHeap h := by
  apply (Lawful.ask (Q := fun _ _ => True) fun _ => trivial).bind
  intro closure m₁ evolves₁ _
  have parameters : (parameterTable closure.declaration.parameters arguments).Each
      (·.OnHeap m₁.heap) :=
    Table.Each.empty.insertZip _ fun v given => evolves₁.preserves.onHeap (there v given)
  apply (Lawful.newEnvironment parameters).bind
  intro e m₂ _ _
  apply (Lawful.catchReturn (.inEnvironment e fun m' _ => .forM executes _)).bind
  intro result m₃ _ returned
  split
  · apply (Lawful.ask (Q := fun h found => ∀ v, found = .ok v → v.OnHeap h)
      fun founded v => founded.lookUpAt).bind
    intro found m₄ _ described
    exact .ofInternal described
  · exact .pure returned

theorem callClass_lawful {c : ClassId} (there : c.index < m.heap.classes.size)
    {arguments : List Value} (given : ∀ v ∈ arguments, v.OnHeap m.heap) :
    Run.Lawful m (callClass execute c arguments) fun h v => v.OnHeap h := by
  have made : Run.Lawful m (change (·.newInstance c)) fun h i => i.index < h.instances.size :=
    .change (.newInstance c there) (by simp [Heap.newInstance])
  apply made.bind
  intro object m₁ evolves₁ new
  apply (Lawful.ask (Q := fun _ _ => True) fun _ => trivial).bind
  intro initializer m₂ evolves₂ _
  have new₂ := Nat.lt_of_lt_of_le new evolves₂.preserves.instanceCount
  cases initializer with
  | none => exact .pure new₂
  | some initializer =>
    apply (Lawful.bindMethod initializer new₂).bind
    intro bound m₃ evolves₃ _
    have evolves := Heap.Evolves.preserves ((evolves₁.trans evolves₂).trans evolves₃)
    apply (callFunction_lawful executes bound fun v member => evolves.onHeap (given v member)).bind
    intro _ m₄ evolves₄ _
    -- The value of the call is the instance, whatever the initializer yields.
    have kept := Heap.Evolves.preserves (evolves₃.trans evolves₄)
    exact .pure (Nat.lt_of_lt_of_le new₂ kept.instanceCount)

omit executes in
/-- The clock is the only native function. -/
theorem callNative_lawful (n : NativeId) (arguments : List Value) :
    Run.Lawful m (callNative n arguments) fun h v => v.OnHeap h := by
  apply (Lawful.ask (Q := fun _ native => native.body = .clock)
    fun founded => founded.natives n).bind
  intro native m₁ _ clock
  rw [clock]
  exact .readClock

theorem callChecked_lawful (paren : Occurrence) {callee : Value} (there : callee.OnHeap m.heap)
    {arguments : List Value} (given : ∀ v ∈ arguments, v.OnHeap m.heap) :
    Run.Lawful m (callChecked execute paren callee arguments) fun h v => v.OnHeap h := by
  apply (Lawful.ask (Q := fun _ _ => True) fun _ => trivial).bind
  intro arity m₁ evolves _
  have given : ∀ v ∈ arguments, v.OnHeap m₁.heap :=
    fun v member => evolves.preserves.onHeap (given v member)
  cases arity with
  | none => exact .fail paren _
  | some arity =>
    dsimp only
    split
    · cases callee with
      | native n => exact callNative_lawful n arguments
      | function f => exact callFunction_lawful executes f given
      | «class» c =>
        exact callClass_lawful executes (evolves.preserves.onHeap (v := .class c) there) given
      | _ => exact .pure trivial
    · exact .fail paren _

end Calls

/-! ## Properties -/

theorem property_lawful {object : Value} (there : object.OnHeap m.heap) (key : Occurrence) :
    Run.Lawful m (property object key) fun h v => v.OnHeap h := by
  cases object with
  | «instance» i =>
    apply (Lawful.ask (Q := fun h found => ∀ v, found = .ok (.field v) → v.OnHeap h)
      fun founded v => founded.member).bind
    intro found m₁ evolves₁ fields
    apply (Lawful.ofRuntime (Q := fun h a => ∀ v, a = .field v → v.OnHeap h)
      fun a result v field => fields v (result.trans (congrArg _ field))).bind
    intro a m₂ evolves₂ described
    cases a with
    | field v => exact .pure (described v rfl)
    | method f =>
      have kept := Heap.Evolves.preserves (evolves₁.trans evolves₂)
      apply (Lawful.bindMethod f (Nat.lt_of_lt_of_le there kept.instanceCount)).bind
      intro bound m₃ _ _
      exact .pure trivial
  | _ => exact .fail key _

theorem assignProperty_lawful (object : Value) (key : Occurrence) {value : Run Value}
    (values : Run.Lawful m value fun h v => v.OnHeap h) :
    Run.Lawful m (assignProperty object key value) fun h v => v.OnHeap h := by
  cases object with
  | «instance» i =>
    apply values.bind
    intro v m₁ _ there
    have written : Run.Lawful m₁ (change fun h => ((), h.setField i key.name v))
        fun _ _ => True := .change (.setField i key.name there) trivial
    apply written.bind
    intro _ m₂ evolves _
    exact .pure (evolves.preserves.onHeap there)
  | _ => exact .fail key _

theorem superMethod_lawful (keyword : Occurrence) (method : Occurrence) :
    Run.Lawful m (superMethod keyword method) fun h v => v.OnHeap h := by
  apply (Lawful.distance? keyword).bind
  intro distance m₁ _ _
  cases distance with
  | none => exact .throw nofun
  | some distance =>
    apply Lawful.current.bind
    intro e m₂ _ _
    apply (Lawful.ask (Q := fun _ _ => True) fun _ => trivial).bind
    intro _ m₃ _ _
    apply (Lawful.ofInternal (Q := fun _ _ => True) fun _ _ => trivial).bind
    intro superclass m₄ _ _
    apply (Lawful.ask (Q := fun h found => ∀ v, found = .ok v → v.OnHeap h)
      fun founded v => founded.lookUpAt).bind
    intro found m₅ _ described
    apply (Lawful.ofInternal described).bind
    intro object m₆ _ there
    split
    · next c i =>
      apply (Lawful.ask (Q := fun _ _ => True) fun _ => trivial).bind
      intro found m₇ evolves₇ _
      cases found with
      | none => exact .fail method _
      | some f =>
        apply (Lawful.bindMethod f (evolves₇.preserves.onHeap (v := .instance i) there)).bind
        intro bound m₈ _ _
        exact .pure trivial
    · exact .throw nofun

/-! ## Declarations -/

theorem declareFunction_lawful (f : Function) :
    Run.Lawful m (declareFunction f) fun _ _ => True := by
  apply Lawful.current.bind
  intro e m₁ _ _
  apply (Lawful.newFunction ⟨f, e, false⟩).bind
  intro made m₂ _ _
  exact .define f.name.lexeme (v := .function made) trivial

/-- A superclass has been made before the class that is being declared. -/
theorem superclassOf_lawful (mention : Occurrence) :
    Run.Lawful m (superclassOf mention) fun h c => c.index < h.classes.size := by
  apply (lookUp_lawful mention).bind
  intro value m₁ _ there
  cases value with
  | «class» c => exact .pure there
  | _ => exact .fail mention _

theorem methodTable_lawful (e : EnvironmentId) (methods : List Function) :
    Run.Lawful m (methodTable e methods) fun h table => table.Each (·.index < h.functions.size) := by
  -- the induction needs the methods that are in the table already
  have added : ∀ {m : Machine} {table : Table FunctionId},
      table.Each (·.index < m.heap.functions.size) →
      Run.Lawful m (methods.foldlM (fun table method => do
          let f ← change (·.newFunction ⟨method, e, method.isInitializer⟩)
          return table.insert method.name.lexeme f) table)
        fun h table => table.Each (·.index < h.functions.size) := by
    induction methods with
    | nil => exact fun there => .pure there
    | cons method rest inductionHypothesis =>
      intro m table there
      rw [List.foldlM_cons]
      have step : Run.Lawful m (do
          let f ← change (·.newFunction ⟨method, e, method.isInitializer⟩)
          return table.insert method.name.lexeme f)
          fun h table => table.Each (·.index < h.functions.size) := by
        apply (Lawful.newFunction _).bind
        intro made m₁ evolves new
        have kept : table.Each (·.index < m₁.heap.functions.size) :=
          there.mono fun f old => Nat.lt_of_lt_of_le old evolves.preserves.functionCount
        exact .pure (kept.insert method.name.lexeme new)
      apply step.bind
      intro table' m₁ _ there'
      exact inductionHypothesis there'
  exact added .empty

/-- What remains of a declaration is the same for each environment that the methods close over. -/
theorem closeClass_lawful (name : Occurrence) {parent : Option ClassId} (e inner : EnvironmentId)
    (methods : List Function) (older : ∀ c ∈ parent, c.index < m.heap.classes.size) :
    Run.Lawful m
      (do
        let table ← methodTable inner methods
        let c ← change (·.newClass ⟨name.name, parent, table⟩)
        let holder ← ofRuntime (← ask (·.holder e name))
        defineIn holder name.name (.class c)) fun _ _ => True := by
  apply (methodTable_lawful inner methods).bind
  intro table m₁ evolves₁ known
  -- The class mentions its parent and its methods, which are all older.
  have made : Run.Lawful m₁ (change (·.newClass ⟨name.name, parent, table⟩))
      fun h c => c.index < h.classes.size := by
    refine .change (.newClass _ (fun c found => ?_) known) (by simp [Heap.newClass])
    exact Nat.lt_of_lt_of_le (older c found) evolves₁.preserves.classCount
  apply made.bind
  intro c m₂ _ new
  apply (Lawful.ask (Q := fun _ _ => True) fun _ => trivial).bind
  intro found m₃ evolves₃ _
  apply (Lawful.ofRuntime (Q := fun _ _ => True) fun _ _ => trivial).bind
  intro holder m₄ evolves₄ _
  have kept := Heap.Evolves.preserves (evolves₃.trans evolves₄)
  exact .defineIn holder name.name (v := .class c) (kept.onHeap (v := .class c) new)

theorem parent_lawful (superclass : Option Occurrence) :
    Run.Lawful m (superclass.mapM superclassOf)
      fun h parent => ∀ c ∈ parent, c.index < h.classes.size := by
  cases superclass with
  | none => exact .pure nofun
  | some mention =>
    apply (superclassOf_lawful mention).bind
    intro c m₁ _ there
    refine .pure fun c' found => ?_
    exact Option.some.inj found ▸ there

theorem declareClass_lawful (name : Occurrence) (superclass : Option Occurrence)
    (methods : List Function) :
    Run.Lawful m (declareClass name superclass methods) fun _ _ => True := by
  apply (parent_lawful superclass).bind
  intro parent m₁ _ there
  apply (Lawful.define name.name (v := .nil) trivial).bind
  intro _ m₂ evolves₂ _
  apply Lawful.current.bind
  intro e m₃ evolves₃ _
  -- the superclass is still there when its subclass is made
  have there₃ : ∀ c ∈ parent, c.index < m₃.heap.classes.size := fun c found =>
    Nat.lt_of_lt_of_le (there c found)
      (Heap.Evolves.preserves (evolves₂.trans evolves₃)).classCount
  cases parent with
  | none => exact closeClass_lawful name e e methods there₃
  | some c =>
    have super : (Table.empty.insert "super" (Value.class c)).Each (·.OnHeap m₃.heap) :=
      Table.Each.empty.insert "super" (there₃ c rfl)
    apply (Lawful.newEnvironment super).bind
    intro inner m₄ evolves₄ _
    exact closeClass_lawful name e inner methods fun c' found =>
      Nat.lt_of_lt_of_le (there₃ c' found) evolves₄.preserves.classCount

/-! ## Evaluation -/

theorem operation_lawful (operator : Occurrence) {result : Except RuntimeFault Value}
    (scalar : ∀ v, result = .ok v → v.IsScalar) :
    Run.Lawful m (operation operator result) fun h v => v.OnHeap h := by
  cases result with
  | ok v => exact .pure (scalar v rfl).onHeap
  | error fault => exact .fail operator fault

end Run

open Run

section Step

variable {loops depth : Nat}
  (evaluates : ∀ e m, Run.Lawful m (evaluate loops depth e) fun h v => v.OnHeap h)
  (executes : ∀ s m, Run.Lawful m (execute loops depth s) fun _ _ => True)
include evaluates executes

theorem evaluate_succ_lawful (e : Expr) (m : Machine) :
    Run.Lawful m (evaluate loops (depth + 1) e) fun h v => v.OnHeap h := by
  rw [evaluate.eq_def]
  cases e with
  | literal value => exact .pure (Value.ofLiteral_scalar value).onHeap
  | grouping inner => exact evaluates inner m
  | name target => exact lookUp_lawful target
  | assign target value =>
    apply (evaluates value m).bind
    intro v m₁ _ there
    apply (assign_lawful target there).bind
    intro _ m₂ evolves _
    exact .pure (evolves.preserves.onHeap there)
  | unary operator operand =>
    apply (evaluates operand m).bind
    intro v m₁ _ _
    exact operation_lawful operator fun _ => unaryOperation_scalar
  | binary left operator right =>
    apply (evaluates left m).bind
    intro v m₁ _ _
    apply (evaluates right m₁).bind
    intro w m₂ _ _
    exact operation_lawful operator fun _ => binaryOperation_scalar
  | logical left operator right =>
    apply (evaluates left m).bind
    intro v m₁ _ there
    split
    · exact .pure there
    · exact evaluates right m₁
  | call callee paren arguments =>
    apply (evaluates callee m).bind
    intro f m₁ _ there
    apply (Lawful.mapM evaluates arguments).bind
    intro vs m₂ evolves given
    exact callChecked_lawful executes paren (evolves.preserves.onHeap there) given
  | get object name =>
    apply (evaluates object m).bind
    intro v m₁ _ there
    exact property_lawful there name
  | set object name value =>
    apply (evaluates object m).bind
    intro v m₁ _ _
    exact assignProperty_lawful v name (evaluates value m₁)
  | this keyword => exact lookUp_lawful keyword
  | super keyword method => exact superMethod_lawful keyword method

theorem execute_succ_lawful (s : Stmt) (m : Machine) :
    Run.Lawful m (execute loops (depth + 1) s) fun _ _ => True := by
  rw [execute.eq_def]
  cases s with
  | expression value => exact (evaluates value m).bind fun _ _ _ _ => .pure trivial
  | print value => exact (evaluates value m).bind fun v _ _ _ => .print v
  | var name initializer =>
    cases initializer with
    | none => exact Lawful.define name.lexeme (v := .nil) trivial
    | some initializer =>
      exact (evaluates initializer m).bind fun _ _ _ there => .define name.lexeme there
  | block body =>
    apply Lawful.current.bind
    intro outer m₁ _ _
    apply (Lawful.newEnvironment .empty).bind
    intro e m₂ _ _
    exact .inEnvironment e fun m₃ _ => .forM executes body
  | ite condition thenBranch elseBranch =>
    apply (evaluates condition m).bind
    intro v m₁ _ _
    split
    · exact executes thenBranch m₁
    · cases elseBranch with
      | none => exact .pure trivial
      | some elseBranch => exact executes elseBranch m₁
  | «while» condition body =>
    exact .repeatWhile (fun m' => (evaluates condition m').map) (executes body) loops
  | function declaration => exact declareFunction_lawful declaration
  | «return» keyword value =>
    cases value with
    | none => exact .throw fun v returned => by cases returned; trivial
    | some value =>
      apply (evaluates value m).bind
      intro v m₁ _ there
      exact .throw fun w returned => Signal.returned.inj returned ▸ there
  | «class» name superclass methods => exact declareClass_lawful name superclass methods

end Step

/-- What runs on a founded heap goes on by lawful steps: the induction is on how deeply it nests. -/
theorem evaluation_lawful (loops depth : Nat) :
    (∀ e m, Run.Lawful m (evaluate loops depth e) fun h v => v.OnHeap h) ∧
      ∀ s m, Run.Lawful m (execute loops depth s) fun _ _ => True := by
  induction depth with
  | zero => exact ⟨fun _ _ => .throw nofun, fun _ _ => .throw nofun⟩
  | succ depth inductionHypothesis =>
    obtain ⟨evaluates, executes⟩ := inductionHypothesis
    exact ⟨evaluate_succ_lawful evaluates executes, execute_succ_lawful evaluates executes⟩

end Lox
