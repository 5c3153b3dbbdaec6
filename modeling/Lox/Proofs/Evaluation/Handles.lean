import Lox.Evaluation.Evaluate
import Lox.Proofs.Heap.Handles

/-!
# Runs make no dangling handles

A closed machine stays closed while it runs statements whose occurrences have numbers below the bound. In
particular the handles in the values of expressions and in what is returned lead somewhere.
-/

namespace Lox

/-! ## Closed machines -/

/-- No handle dangles, and numbers from `next` on are not in use. -/
structure Machine.Closed (next : Nat) (m : Machine) : Prop where
  heap : m.heap.Closed next
  current : m.current.index < m.heap.environments.size
  globals : m.globals.index < m.heap.environments.size
  outermost : (m.heap.environmentAt m.globals).enclosing = none
  fresh : ∀ n, next ≤ n → m.distances.find? n = none

/-- What a run makes of a closed machine. -/
structure Machine.Turns (next : Nat) (m m' : Machine) : Prop where
  within : m.heap.Within m'.heap
  closed : m'.Closed next
  current : m'.current = m.current
  distances : m'.distances = m.distances

section Runs

variable {next : Nat} {α β γ : Type}

theorem Machine.Turns.refl {m : Machine} (closed : m.Closed next) : m.Turns next m :=
  ⟨.refl _, closed, rfl, rfl⟩

theorem Machine.Turns.trans {m m' m'' : Machine} (first : m.Turns next m')
    (second : m'.Turns next m'') : m.Turns next m'' :=
  ⟨first.within.trans second.within, second.closed, second.current.trans first.current,
    second.distances.trans first.distances⟩

/-- The machine with a larger heap and the same environments at hand. -/
theorem Machine.Closed.withHeap {m : Machine} (closed : m.Closed next) {h : Heap}
    (within : m.heap.Within h) (heap : h.Closed next) : m.Turns next { m with heap := h } where
  within := within
  closed :=
    { heap
      current := Nat.lt_of_lt_of_le closed.current within.environments
      globals := Nat.lt_of_lt_of_le closed.globals within.environments
      outermost := (within.enclosing m.globals closed.globals).trans closed.outermost
      fresh := closed.fresh }
  current := rfl
  distances := rfl

/-- The result of a run from a closed machine. -/
inductive Run.Lands (next : Nat) (m : Machine) (Q : Heap → α → Prop) :
    EStateM.Result Signal Machine α → Prop where
  | ok {a : α} {m' : Machine} : m.Turns next m' → Q m'.heap a → Lands next m Q (.ok a m')
  | error {signal : Signal} {m' : Machine} : m.Turns next m' →
      (∀ v, signal = .returned v → v.Inside m'.heap) → Lands next m Q (.error signal m')

/-- From a closed machine the run ends in a closed one, and its result is as described. -/
def Run.Safe (next : Nat) (m : Machine) (run : Run α) (Q : Heap → α → Prop) : Prop :=
  m.Closed next → Run.Lands next m Q (run m)

namespace Run.Safe

variable {m : Machine} {Q : Heap → α → Prop} {R : Heap → β → Prop}

theorem pure {a : α} (described : Q m.heap a) : Run.Safe next m (pure a) Q :=
  fun closed => .ok (.refl closed) described

theorem throw {signal : Signal} (inside : ∀ v, signal = .returned v → v.Inside m.heap) :
    Run.Safe next m (throw signal) Q :=
  fun closed => .error (.refl closed) inside

theorem fail (token : Occurrence) (fault : RuntimeFault) :
    Run.Safe next m (Run.fail token fault) Q :=
  throw nofun

theorem bind {run : Run α} {f : α → Run β} (first : Run.Safe next m run Q)
    (second : ∀ a m', m.Turns next m' → Q m'.heap a → Run.Safe next m' (f a) R) :
    Run.Safe next m (run >>= f) R := by
  intro closed
  have here := first closed
  simp only [Bind.bind, EStateM.bind]
  generalize run m = result at here
  cases here with
  | error turns inside => exact .error turns inside
  | ok turns described =>
    have later := second _ _ turns described turns.closed
    dsimp only
    generalize f _ _ = result at later
    cases later with
    | ok more described => exact .ok (turns.trans more) described
    | error more inside => exact .error (turns.trans more) inside

theorem map {run : Run α} {f : α → β} (first : Run.Safe next m run Q) :
    Run.Safe next m (f <$> run) fun _ _ => True :=
  first.bind fun _ _ _ _ => pure trivial

theorem ofRuntime {result : Except RuntimeError α}
    (described : ∀ a, result = .ok a → Q m.heap a) :
    Run.Safe next m (Run.ofRuntime result) Q := by
  cases result with
  | ok a => exact pure (described a rfl)
  | error e => exact throw nofun

theorem ofInternal {result : Except InternalFault α}
    (described : ∀ a, result = .ok a → Q m.heap a) :
    Run.Safe next m (Run.ofInternal result) Q := by
  cases result with
  | ok a => exact pure (described a rfl)
  | error fault => exact throw nofun

theorem ask {f : Heap → α} : Run.Safe next m (Run.ask f) fun h a => a = f h :=
  fun closed => .ok (.refl closed) rfl

theorem change {f : Heap → α × Heap}
    (changed : m.heap.Closed next →
      m.heap.Within (f m.heap).2 ∧ (f m.heap).2.Closed next ∧ Q (f m.heap).2 (f m.heap).1) :
    Run.Safe next m (Run.change f) Q := by
  intro closed
  obtain ⟨within, heap, described⟩ := changed closed.heap
  exact .ok (closed.withHeap within heap) described

theorem current : Run.Safe next m Run.current fun h e => e.index < h.environments.size :=
  fun closed => .ok (.refl closed) closed.current

theorem globals : Run.Safe next m Run.globals fun _ _ => True :=
  fun closed => .ok (.refl closed) trivial

theorem distance? (mention : Occurrence) :
    Run.Safe next m (Run.distance? mention) fun _ _ => True :=
  fun closed => .ok (.refl closed) trivial

theorem print (v : Value) : Run.Safe next m (Run.print v) fun _ _ => True :=
  fun closed => .ok ⟨.refl _, { closed with }, rfl, rfl⟩ trivial

theorem readClock : Run.Safe next m Run.readClock fun h v => v.Inside h :=
  fun closed => .ok ⟨.refl _, { closed with }, rfl, rfl⟩ trivial

theorem defineIn (e : EnvironmentId) (name : String) {v : Value} (inside : v.Inside m.heap) :
    Run.Safe next m (Run.defineIn e name v) fun _ _ => True :=
  change fun closed =>
    ⟨(closed.define e name inside).1, (closed.define e name inside).2, trivial⟩

theorem define (name : String) {v : Value} (inside : v.Inside m.heap) :
    Run.Safe next m (Run.define name v) fun _ _ => True := by
  apply current.bind
  intro e m' turns _
  exact defineIn e name (turns.within.inside inside)

theorem newEnvironment {env : Environment} (names : env.names.Inside m.heap)
    (enclosing : ∀ o ∈ env.enclosing, o.index < m.heap.environments.size) :
    Run.Safe next m (Run.change (·.newEnvironment env)) fun h e => e.index < h.environments.size :=
  change fun closed => closed.newEnvironment env names enclosing

theorem newFunction {c : Closure} (inside : c.Inside next m.heap) :
    Run.Safe next m (Run.change (·.newFunction c)) fun h f => f.index < h.functions.size :=
  change fun closed => closed.newFunction inside

theorem bindMethod {f : FunctionId} (there : f.index < m.heap.functions.size) (i : InstanceId) :
    Run.Safe next m (Run.change (·.bind f i)) fun h g => g.index < h.functions.size :=
  change fun closed => closed.bind there i

/-! ### Control -/

theorem inEnvironment {run : Run α} {e : EnvironmentId} (there : e.index < m.heap.environments.size)
    (body : ∀ m', m.heap.Within m'.heap → Run.Safe next m' run Q) :
    Run.Safe next m (Run.inEnvironment e run) Q := by
  intro closed
  have here := body { m with current := e } (.refl _) { closed with current := there }
  simp only [Run.inEnvironment]
  generalize run { m with current := e } = result at here
  cases here with
  | ok turns described =>
    have back := Nat.lt_of_lt_of_le closed.current turns.within.environments
    exact .ok ⟨turns.within, { turns.closed with current := back }, rfl, turns.distances⟩ described
  | error turns inside =>
    have back := Nat.lt_of_lt_of_le closed.current turns.within.environments
    exact .error ⟨turns.within, { turns.closed with current := back }, rfl, turns.distances⟩ inside

theorem catchReturn {run : Run α} (body : Run.Safe next m run Q) :
    Run.Safe next m (Run.catchReturn run) fun h v => v.Inside h := by
  intro closed
  have here := body closed
  simp only [Run.catchReturn]
  generalize run m = result at here
  cases here with
  | ok turns _ => exact .ok turns trivial
  | @error signal m' turns inside =>
    cases signal with
    | returned v => exact .ok turns (inside v rfl)
    | failed | internal | unresolvedSuper | exhausted => exact .error turns nofun

theorem repeatWhile {condition : Run Bool} {body : Run Unit}
    (conditions : ∀ m', Run.Safe next m' condition fun _ _ => True)
    (bodies : ∀ m', Run.Safe next m' body fun _ _ => True) (limit : Nat) :
    Run.Safe next m (Run.repeatWhile condition body limit) fun _ _ => True := by
  induction limit generalizing m with
  | zero => exact throw nofun
  | succ limit inductionHypothesis =>
    apply (conditions m).bind
    intro again m' _ _
    cases again with
    | true => exact (bodies m').bind fun _ _ _ _ => inductionHypothesis
    | false => exact pure trivial

theorem forM {f : γ → Run Unit} (items : List γ)
    (each : ∀ x ∈ items, ∀ m', Run.Safe next m' (f x) fun _ _ => True) :
    Run.Safe next m (items.forM f) fun _ _ => True := by
  induction items generalizing m with
  | nil => exact pure trivial
  | cons x rest inductionHypothesis =>
    obtain ⟨first, others⟩ := List.forall_mem_cons.1 each
    exact (first m).bind fun _ _ _ _ => inductionHypothesis others

theorem mapM {f : γ → Run Value} (items : List γ)
    (each : ∀ x ∈ items, ∀ m', Run.Safe next m' (f x) fun h v => v.Inside h) :
    Run.Safe next m (items.mapM f) fun h vs => ∀ v ∈ vs, v.Inside h := by
  induction items generalizing m with
  | nil => exact pure nofun
  | cons x rest inductionHypothesis =>
    obtain ⟨first, others⟩ := List.forall_mem_cons.1 each
    rw [List.mapM_cons]
    apply (first m).bind
    intro v m₁ _ inside
    apply (inductionHypothesis others).bind
    intro vs m₂ turns insides
    exact pure (List.forall_mem_cons.2 ⟨turns.within.inside inside, insides⟩)

end Run.Safe

end Runs

namespace Run

variable {next : Nat} {m : Machine}

/-! ## Names -/

theorem lookUp_safe (mention : Occurrence) :
    Run.Safe next m (lookUp mention) fun h v => v.Inside h := by
  apply (Safe.distance? mention).bind
  intro distance m₁ _ _
  cases distance with
  | none =>
    apply Safe.globals.bind
    intro e m₂ _ _
    apply Safe.ask.bind
    rintro _ m₃ turns rfl
    exact .ofRuntime fun v => turns.closed.heap.lookUp
  | some distance =>
    apply Safe.current.bind
    intro e m₂ _ _
    apply Safe.ask.bind
    rintro _ m₃ turns rfl
    exact .ofInternal fun v => turns.closed.heap.lookUpAt

theorem assign_safe (mention : Occurrence) {v : Value} (inside : v.Inside m.heap) :
    Run.Safe next m (assign mention v) fun _ _ => True := by
  apply (Safe.distance? mention).bind
  intro distance m₁ turns₁ _
  cases distance with
  | none =>
    apply Safe.globals.bind
    intro e m₂ turns₂ _
    apply Safe.ask.bind
    intro found m₃ turns₃ _
    apply (Safe.ofRuntime (Q := fun _ _ => True) fun _ _ => trivial).bind
    intro holder m₄ turns₄ _
    have turns := ((turns₁.trans turns₂).trans turns₃).trans turns₄
    exact .defineIn holder _ (turns.within.inside inside)
  | some distance =>
    apply Safe.current.bind
    intro e m₂ turns₂ _
    apply Safe.ask.bind
    intro found m₃ turns₃ _
    apply (Safe.ofInternal (Q := fun _ _ => True) fun _ _ => trivial).bind
    intro holder m₄ turns₄ _
    have turns := ((turns₁.trans turns₂).trans turns₃).trans turns₄
    exact .defineIn holder _ (turns.within.inside inside)

/-! ## Calls -/

theorem method?_safe (c : ClassId) (name : String) :
    Run.Safe next m (ask (·.method? c name)) fun h found =>
      ∀ f ∈ found, f.index < h.functions.size :=
  fun closed => .ok (.refl closed) fun _ found => closed.heap.method? found

section Calls

variable {execute : Stmt → Run Unit} (executes : ∀ m s, Subject.Below next s.subjects →
  Run.Safe next m (execute s) fun _ _ => True)
include executes

theorem callFunction_safe {f : FunctionId} (there : f.index < m.heap.functions.size)
    {arguments : List Value} (inside : ∀ v ∈ arguments, v.Inside m.heap) :
    Run.Safe next m (callFunction execute f arguments) fun h v => v.Inside h := by
  apply Safe.ask.bind
  rintro closure m₁ turns₁ rfl
  have code := turns₁.closed.heap.closures f (Nat.lt_of_lt_of_le there turns₁.within.functions)
  have parameters : (parameterTable (m₁.heap.functionAt f).declaration.parameters
      arguments).Inside m₁.heap :=
    Table.Each.empty.insertZip _ fun v given => turns₁.within.inside (inside v given)
  -- The new environment lies in that of the closure, which is on the heap.
  have around : ∀ o ∈ some (m₁.heap.functionAt f).environment, o.index < m₁.heap.environments.size :=
    fun o found => Option.some.inj found ▸ code.environment
  apply (Safe.newEnvironment parameters around).bind
  intro e m₂ turns₂ new
  apply (Safe.catchReturn (.inEnvironment new fun m' _ => .forM _ fun s member m'' =>
    executes m'' s (Function.below_body code.below s member))).bind
  intro result m₃ turns₃ returned
  split
  · apply Safe.ask.bind
    rintro _ m₄ turns₄ rfl
    exact .ofInternal fun v => turns₄.closed.heap.lookUpAt
  · exact .pure returned

theorem callClass_safe (c : ClassId) {arguments : List Value}
    (inside : ∀ v ∈ arguments, v.Inside m.heap) :
    Run.Safe next m (callClass execute c arguments) fun h v => v.Inside h := by
  have made : Run.Safe next m (change (·.newInstance c)) fun _ _ => True :=
    .change fun closed => ⟨(closed.newInstance c).1, (closed.newInstance c).2, trivial⟩
  apply made.bind
  intro object m₁ turns₁ _
  apply (method?_safe c initializerName).bind
  intro initializer m₂ turns₂ methods
  cases initializer with
  | none => exact .pure trivial
  | some initializer =>
    apply (Safe.bindMethod (methods initializer rfl) object).bind
    intro bound m₃ turns₃ there
    have turns := (turns₁.trans turns₂).trans turns₃
    apply (callFunction_safe executes there fun v member =>
      turns.within.inside (inside v member)).bind
    intro _ _ _ _
    exact .pure trivial

omit executes in
theorem callNative_safe (n : NativeId) {arguments : List Value}
    (inside : ∀ v ∈ arguments, v.Inside m.heap) :
    Run.Safe next m (callNative n arguments) fun h v => v.Inside h := by
  apply Safe.ask.bind
  rintro native m₁ turns rfl
  have honest := turns.closed.heap.honest n
  cases body : (m₁.heap.nativeAt n).body with
  | clock => exact .readClock
  | compute result =>
    rw [body] at honest
    refine .pure ?_
    cases value : result arguments with
    | function f => exact turns.within.inside (inside _ (honest arguments f value))
    | _ => trivial

theorem callChecked_safe (paren : Occurrence) {callee : Value} (there : callee.Inside m.heap)
    {arguments : List Value} (inside : ∀ v ∈ arguments, v.Inside m.heap) :
    Run.Safe next m (callChecked execute paren callee arguments) fun h v => v.Inside h := by
  apply Safe.ask.bind
  rintro arity m₁ turns -
  have inside : ∀ v ∈ arguments, v.Inside m₁.heap :=
    fun v member => turns.within.inside (inside v member)
  cases arity with
  | none => exact .fail paren _
  | some arity =>
    dsimp only
    split
    · cases callee with
      | native n => exact callNative_safe n inside
      | function f => exact callFunction_safe executes (turns.within.inside there) inside
      | «class» c => exact callClass_safe executes c inside
      | _ => exact .pure trivial
    · exact .fail paren _

end Calls

/-! ## Properties -/

theorem property_safe (object : Value) (key : Occurrence) :
    Run.Safe next m (property object key) fun h v => v.Inside h := by
  cases object with
  | «instance» i =>
    apply Safe.ask.bind
    rintro _ m₁ turns rfl
    have members := turns.closed.heap.member i key
    apply (Safe.ofRuntime (Q := fun h a => (∀ v, a = .field v → v.Inside h) ∧
      ∀ f, a = .method f → f.index < h.functions.size) fun a found =>
        ⟨fun v field => members.1 v (found.trans (congrArg _ field)),
          fun f method => members.2 f (found.trans (congrArg _ method))⟩).bind
    rintro a m₂ _ ⟨field, method⟩
    cases a with
    | field v => exact .pure (field v rfl)
    | method f =>
      apply (Safe.bindMethod (method f rfl) i).bind
      intro bound m₃ _ there
      exact .pure there
  | _ => exact .fail key _

theorem assignProperty_safe (object : Value) (key : Occurrence) {value : Run Value}
    (values : Run.Safe next m value fun h v => v.Inside h) :
    Run.Safe next m (assignProperty object key value) fun h v => v.Inside h := by
  cases object with
  | «instance» i =>
    apply values.bind
    intro v m₁ _ inside
    have written : Run.Safe next m₁ (change fun h => ((), h.setField i key.name v))
        fun _ _ => True := .change fun closed =>
      ⟨(closed.setField i key.name inside).1, (closed.setField i key.name inside).2, trivial⟩
    apply written.bind
    intro _ m₂ turns _
    exact .pure (turns.within.inside inside)
  | _ => exact .fail key _

theorem superMethod_safe (keyword : Occurrence) (method : Occurrence) :
    Run.Safe next m (superMethod keyword method) fun h v => v.Inside h := by
  apply (Safe.distance? keyword).bind
  intro distance m₁ _ _
  cases distance with
  | none => exact .throw nofun
  | some distance =>
    apply Safe.current.bind
    intro e m₂ _ _
    apply Safe.ask.bind
    intro _ m₃ _ _
    apply (Safe.ofInternal (Q := fun _ _ => True) fun _ _ => trivial).bind
    intro superclass m₄ _ _
    apply Safe.ask.bind
    intro _ m₅ _ _
    apply (Safe.ofInternal (Q := fun _ _ => True) fun _ _ => trivial).bind
    intro object m₆ _ _
    split
    · next c i =>
      apply (method?_safe c method.name).bind
      intro found m₇ _ methods
      cases found with
      | none => exact .fail method _
      | some f =>
        apply (Safe.bindMethod (methods f rfl) i).bind
        intro bound m₈ _ there
        exact .pure there
    · exact .throw nofun

/-! ## Declarations -/

theorem declareFunction_safe {f : Function} (below : Subject.Below next f.subjects) :
    Run.Safe next m (declareFunction f) fun _ _ => True := by
  apply Safe.current.bind
  intro e m₁ _ there
  apply (Safe.newFunction (c := ⟨f, e, false⟩) ⟨there, below⟩).bind
  intro made m₂ _ new
  exact .define f.name.lexeme (v := .function made) new

theorem superclassOf_safe (mention : Occurrence) :
    Run.Safe next m (superclassOf mention) fun _ _ => True := by
  apply (lookUp_safe mention).bind
  intro value m₁ _ _
  cases value with
  | «class» c => exact .pure trivial
  | _ => exact .fail mention _

/-- Makes a method that closes over environment `e`. -/
def addMethod (e : EnvironmentId) (table : Table FunctionId) (method : Function) :
    Run (Table FunctionId) := do
  let f ← change (·.newFunction ⟨method, e, method.isInitializer⟩)
  return table.insert method.name.lexeme f

theorem methodTable_eq (e : EnvironmentId) (methods : List Function) :
    methodTable e methods = methods.foldlM (addMethod e) .empty := rfl

theorem addMethods_safe {e : EnvironmentId} (there : e.index < m.heap.environments.size)
    {methods : List Function} (below : ∀ f ∈ methods, Subject.Below next f.subjects)
    {table : Table FunctionId}
    (known : ∀ name f, table.find? name = some f → f.index < m.heap.functions.size) :
    Run.Safe next m (methods.foldlM (addMethod e) table) fun h table =>
      ∀ name f, table.find? name = some f → f.index < h.functions.size := by
  induction methods generalizing m table with
  | nil => exact .pure known
  | cons method rest inductionHypothesis =>
    obtain ⟨belowHere, belowRest⟩ := List.forall_mem_cons.1 below
    rw [List.foldlM_cons]
    have added : Run.Safe next m (addMethod e table method) fun h table =>
        ∀ name f, table.find? name = some f → f.index < h.functions.size := by
      apply (Safe.newFunction (c := ⟨method, e, method.isInitializer⟩) ⟨there, belowHere⟩).bind
      intro made m₁ turns new
      refine .pure fun name f found => ?_
      rw [Table.find?_insert] at found
      split at found
      · exact Option.some.inj found ▸ new
      · exact Nat.lt_of_lt_of_le (known name f found) turns.within.functions
    apply added.bind
    intro table' m₁ turns known'
    exact inductionHypothesis (Nat.lt_of_lt_of_le there turns.within.environments) belowRest known'

theorem declareClass_safe (name : Occurrence) (superclass : Option Occurrence)
    {methods : List Function}
    (below : ∀ f ∈ methods, Subject.Below next f.subjects) :
    Run.Safe next m (declareClass name superclass methods) fun _ _ => True := by
  have parent : Run.Safe next m (superclass.mapM superclassOf) fun _ _ => True := by
    cases superclass with
    | none => exact .pure trivial
    | some mention => exact (superclassOf_safe mention).map
  apply parent.bind
  intro parent m₁ _ _
  have unset : Value.nil.Inside m₁.heap := trivial
  apply (Safe.define name.name unset).bind
  intro _ m₂ _ _
  apply Safe.current.bind
  intro e m₃ turns₃ there
  -- what follows is the same for each environment that the methods close over
  have rest : ∀ inner m', inner.index < m'.heap.environments.size → Run.Safe next m'
      (do
        let table ← methodTable inner methods
        let c ← change (·.newClass ⟨name.name, parent, table⟩)
        let holder ← ofRuntime (← ask (·.holder e name))
        defineIn holder name.name (.class c)) fun _ _ => True := by
    intro inner m' there
    rw [methodTable_eq]
    have empty : ∀ x f, (Table.empty : Table FunctionId).find? x = some f →
        f.index < m'.heap.functions.size := by
      rintro _ _ ⟨⟩
    apply (addMethods_safe there below empty).bind
    intro table m'' _ known
    have made : Run.Safe next m'' (change (·.newClass ⟨name.name, parent, table⟩))
        fun _ _ => True := .change fun closed =>
      ⟨(closed.newClass _ known).1, (closed.newClass _ known).2, trivial⟩
    apply made.bind
    intro c _ _ _
    apply Safe.ask.bind
    intro found _ _ _
    apply (Safe.ofRuntime (Q := fun _ _ => True) fun _ _ => trivial).bind
    intro holder _ _ _
    exact .defineIn holder name.name (v := .class c) trivial
  cases parent with
  | none => exact rest e m₃ there
  | some c =>
    have parents : (Table.empty.insert "super" (Value.class c)).Inside m₃.heap :=
      Table.Inside.empty.insert "super" trivial
    have around : ∀ o ∈ some e, o.index < m₃.heap.environments.size :=
      fun o found => Option.some.inj found ▸ there
    apply (Safe.newEnvironment parents around).bind
    intro inner m₄ _ new
    exact rest inner m₄ new

/-! ## Evaluation -/

theorem operation_safe (operator : Occurrence) {result : Except RuntimeFault Value}
    (scalar : ∀ v, result = .ok v → v.IsScalar) :
    Run.Safe next m (operation operator result) fun h v => v.Inside h := by
  cases result with
  | ok v => exact .pure (scalar v rfl).inside
  | error fault => exact .fail operator fault

end Run

open Run

section Step

variable {next loops depth : Nat}
  (evaluates : ∀ m e, Subject.Below next e.subjects →
    Run.Safe next m (evaluate loops depth e) fun h v => v.Inside h)
  (executes : ∀ m s, Subject.Below next s.subjects →
    Run.Safe next m (execute loops depth s) fun _ _ => True)
include evaluates executes

theorem evaluate_succ_safe (m : Machine) {e : Expr} (below : Subject.Below next e.subjects) :
    Run.Safe next m (evaluate loops (depth + 1) e) fun h v => v.Inside h := by
  rw [evaluate.eq_def]
  cases e with
  | literal value => exact .pure (Value.ofLiteral_scalar value).inside
  | grouping inner => exact evaluates m inner below
  | name target => exact lookUp_safe target
  | assign target value =>
    apply (evaluates m value below.split.1).bind
    intro v m₁ _ inside
    apply (assign_safe target inside).bind
    intro _ m₂ turns _
    -- The value was inside before the assignment, and the heap has only grown.
    exact .pure (turns.within.inside inside)
  | unary operator operand =>
    apply (evaluates m operand below).bind
    intro v m₁ _ _
    exact operation_safe operator fun _ => unaryOperation_scalar
  | binary left operator right =>
    apply (evaluates m left below.split.1).bind
    intro v m₁ _ _
    apply (evaluates m₁ right below.split.2).bind
    intro w m₂ _ _
    exact operation_safe operator fun _ => binaryOperation_scalar
  | logical left operator right =>
    apply (evaluates m left below.split.1).bind
    intro v m₁ _ inside
    split
    · exact .pure inside
    · exact evaluates m₁ right below.split.2
  | call callee paren arguments =>
    apply (evaluates m callee below.split.1).bind
    intro f m₁ _ there
    apply (Safe.mapM arguments fun e member m' =>
      evaluates m' e (Expr.below_of_mem below.split.2 e member)).bind
    intro vs m₂ turns inside
    exact callChecked_safe executes paren (turns.within.inside there) inside
  | get object name =>
    apply (evaluates m object below).bind
    intro v m₁ _ _
    exact property_safe v name
  | set object name value =>
    apply (evaluates m object below.split.2).bind
    intro v m₁ _ _
    exact assignProperty_safe v name (evaluates m₁ value below.split.1)
  | this keyword => exact lookUp_safe keyword
  | super keyword method => exact superMethod_safe keyword method

theorem execute_succ_safe (m : Machine) {s : Stmt} (below : Subject.Below next s.subjects) :
    Run.Safe next m (execute loops (depth + 1) s) fun _ _ => True := by
  rw [execute.eq_def]
  cases s with
  | expression value =>
    apply (evaluates m value below).bind
    intro _ _ _ _
    exact .pure trivial
  | print value =>
    apply (evaluates m value below).bind
    intro v m₁ _ _
    exact .print v
  | var name initializer =>
    cases initializer with
    | none => exact Safe.define name.lexeme (v := .nil) trivial
    | some initializer =>
      apply (evaluates m initializer below.tail).bind
      intro v m₁ _ inside
      exact .define name.lexeme inside
  | block body =>
    apply Safe.current.bind
    intro outer m₁ _ there
    apply (Safe.newEnvironment .empty fun o found => Option.some.inj found ▸ there).bind
    intro e m₂ _ new
    exact .inEnvironment new fun m₃ _ => .forM body fun s member m' =>
      executes m' s (Stmt.below_of_mem below s member)
  | ite condition thenBranch elseBranch =>
    cases elseBranch with
    | none =>
      apply (evaluates m condition below.split.1).bind
      intro v m₁ _ _
      dsimp only
      split
      · exact executes m₁ thenBranch below.split.2
      · exact .pure trivial
    | some elseBranch =>
      apply (evaluates m condition below.split.1.split.1).bind
      intro v m₁ _ _
      dsimp only
      split
      · exact executes m₁ thenBranch below.split.1.split.2
      · exact executes m₁ elseBranch below.split.2
  | «while» condition body =>
    exact .repeatWhile (fun m' => (evaluates m' condition below.split.1).map)
      (fun m' => executes m' body below.split.2) loops
  | function declaration => exact declareFunction_safe below.tail
  | «return» keyword value =>
    cases value with
    | none => exact .throw fun v returned => by cases returned; trivial
    | some value =>
      apply (evaluates m value below.tail).bind
      intro v m₁ _ inside
      exact .throw fun w returned => Signal.returned.inj returned ▸ inside
  | «class» name superclass methods =>
    exact declareClass_safe name superclass (Function.below_of_mem below.split.2)

end Step

/-- What runs on a closed machine leaves it closed. -/
theorem evaluation_safe (next loops depth : Nat) :
    (∀ m e, Subject.Below next e.subjects →
      Run.Safe next m (evaluate loops depth e) fun h v => v.Inside h) ∧
    ∀ m s, Subject.Below next s.subjects →
      Run.Safe next m (execute loops depth s) fun _ _ => True := by
  induction depth with
  | zero => exact ⟨fun _ _ _ => .throw nofun, fun _ _ _ => .throw nofun⟩
  | succ depth inductionHypothesis =>
    obtain ⟨evaluates, executes⟩ := inductionHypothesis
    exact ⟨fun m _ => evaluate_succ_safe evaluates executes m,
      fun m _ => execute_succ_safe evaluates executes m⟩

end Lox
