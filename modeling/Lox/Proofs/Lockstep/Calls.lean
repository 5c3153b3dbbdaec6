import Lox.Proofs.Lockstep.Methods

/-!
# Calls in step

A call runs the body of the function at the place of its declaration, with the names that the function
closes over and the parameters. Whoever calls it, the environments around the new one are those of that
place.
-/

namespace Lox

open Lexical (CellId Names Store LexicalRun)

variable {V : Visit → Prop} {D : Distances} {α β : Type}

/-! ## Statements -/

/-- Each statement that may run goes in step, and leaves the names that are in scope after it. -/
def Executes (V : Visit → Prop) (D : Distances) (execute : Stmt → TracedRun Unit)
    (execute' : Names → Stmt → LexicalRun Names) : Prop :=
  ∀ (j : Joint V D) (p : Place) (names : Names) (s : Stmt), j.Stands p names → p.Settled →
    s.WellPlaced → (∀ v ∈ s.visits p, V v) →
    j.Lockstep (some j.current) (execute s) (execute' names s) fun j' _ names' =>
      j'.Stands (s.after p) names'

theorem Place.Settled.after {p : Place} (settled : p.Settled) {s : Stmt} (placed : s.WellPlaced) :
    (s.after p).Settled := by
  cases declared : s.declared? with
  | none =>
    rw [Stmt.after_of_not_declared p s placed declared]
    exact settled
  | some name =>
    rw [Stmt.after_of_declared p declared]
    exact settled.declareComplete name

theorem Executes.all {execute : Stmt → TracedRun Unit} {execute' : Names → Stmt → LexicalRun Names}
    (executes : Executes V D execute execute') {j : Joint V D} {p : Place} {names : Names}
    (stands : j.Stands p names) (settled : p.Settled) {ss : List Stmt} (placed : Stmt.AllWellPlaced ss)
    (visited : ∀ v ∈ Stmt.allVisits p ss, V v) :
    j.Lockstep (some j.current) (ss.forM execute) (ss.foldlM execute' names) fun j' _ names' =>
      j'.Stands (Stmt.allAfter p ss) names' := by
  induction ss generalizing j p names with
  | nil => exact .pure stands
  | cons s rest inductionHypothesis =>
    rw [Stmt.AllWellPlaced] at placed
    rw [Stmt.allVisits] at visited
    obtain ⟨visitedHere, visitedRest⟩ := List.forall_mem_append.1 visited
    rw [List.foldlM_cons]
    change j.Lockstep _ (execute s >>= fun _ => rest.forM execute) _ _
    refine (executes j p names s stands settled placed.1 visitedHere).bind
      fun _ names' j' before stands' => ?_
    -- The statements that are left run in the environment where the first one ran.
    rw [← before.current]
    exact inductionHypothesis stands' (settled.after placed.1) placed.2 visitedRest

/-! ## Parameters -/

theorem Run.forM_define (entries : List (String × Value)) (m : Machine) :
    (entries.forM fun entry => Run.define entry.1 entry.2 : Run Unit) m =
      .ok () { m with
        heap := entries.foldl (fun h entry => h.define m.current entry.1 entry.2) m.heap } := by
  induction entries generalizing m with
  | nil => rfl
  | cons entry rest inductionHypothesis =>
    exact inductionHypothesis { m with heap := m.heap.define m.current entry.1 entry.2 }

/-- The names of a new environment may as well be defined one by one. -/
theorem Heap.newEnvironment_insertAll (h : Heap) (entries : List (String × Value))
    (names : Table Value) (outer : Option EnvironmentId) :
    (h.newEnvironment ⟨names.insertAll entries, outer⟩).2 =
      entries.foldl (fun k entry => k.define ⟨h.environments.size⟩ entry.1 entry.2)
        (h.newEnvironment ⟨names, outer⟩).2 := by
  induction entries generalizing names with
  | nil => rfl
  | cons entry rest inductionHypothesis =>
    have first := h.define_newEnvironment ⟨names, outer⟩ entry.1 entry.2
    rw [List.foldl_cons]
    exact (inductionHypothesis (names.insert entry.1 entry.2)).trans (by rw [← first]; rfl)

theorem Joint.parameters_lockstep (ruled : Ruled V D) (parameters : List Token)
    (arguments : List Value) (arity : arguments.length = parameters.length) {j : Joint V D}
    {p : Place} {names : Names} (stands : j.Stands p names) (inside : p.levels ≠ [])
    (visited : ∀ v ∈ p.parameterVisits parameters, V v) (fit : ∀ a ∈ arguments, j.world.Fits a) :
    j.Lockstep (some j.current)
      (NotedRun.lift (((parameters.map Token.lexeme).zip arguments).forM fun entry =>
        Run.define entry.1 entry.2))
      (((parameters.map Token.lexeme).zip arguments).foldlM
        (fun names (name, value) => LexicalRun.bindName names name value) names)
      fun j' _ names' => j'.Stands (parameters.foldl Place.declareComplete p) names' := by
  induction parameters generalizing j p names arguments with
  | nil => exact Lockstep.of_eq (.pure stands) rfl rfl
  | cons name rest inductionHypothesis =>
    cases arguments with
    | nil => cases arity
    | cons argument others =>
      obtain ⟨visitedHere, visitedRest⟩ := List.forall_mem_cons.1 visited
      obtain ⟨fitHere, fitRest⟩ := List.forall_mem_cons.1 fit
      have accepts := ruled.accepts visitedHere
      -- Inside of scopes, to bind a parameter is to declare it.
      have declared : LexicalRun.bindName names name.lexeme argument =
          LexicalRun.declare names name.lexeme argument := by
        cases names with
        | global => exact absurd (stands.global.1 rfl) inside
        | inside cells => rfl
      rw [List.map_cons, List.zip_cons_cons, List.foldlM_cons, List.forM, NotedRun.lift_bind]
      change j.Lockstep _ _ (LexicalRun.bindName names name.lexeme argument >>= _) _
      rw [declared]
      refine (j.declare_lockstep accepts (stands.declare accepts) fitHere).bind
        fun _ names' j' before reached => ?_
      obtain ⟨stands', _⟩ := reached
      rw [← before.current]
      refine inductionHypothesis others (Nat.succ.inj arity) stands' (fun outside => inside ?_)
        visitedRest fun a member => before.world.fits (fitRest a member)
      have origins := (Place.Advances.declareComplete p name).origins
      rw [outside] at origins
      exact List.map_eq_nil_iff.1 origins.symm

theorem Place.Settled.enterFunction {p : Place} (settled : p.Settled) (f : Function) :
    (p.enterFunction f).Settled := by
  have parameters : ∀ (names : List Token) (q : Place), q.Settled →
      (names.foldl Place.declareComplete q).Settled := by
    intro names
    induction names with
    | nil => exact fun _ settled => settled
    | cons name rest inductionHypothesis =>
      exact fun q settled => inductionHypothesis _ (settled.declareComplete name)
  exact parameters f.parameters _ (settled.enter _ (by rintro _ ⟨⟩))

/-- Defining names one by one in an environment. -/
theorem NotedRun.inEnvironment_define (e : EnvironmentId) (entries : List (String × Value))
    (t : Traced) :
    inEnvironment e (lift (entries.forM fun entry => Run.define entry.1 entry.2)) t =
      .ok () { t with machine := { t.machine with
        heap := entries.foldl (fun h entry => h.define e entry.1 entry.2) t.machine.heap } } := by
  rw [inEnvironment, lift, Run.forM_define]

/-! ## Functions -/

/-- What a call yields after its body: that of an initializer yields the instance. -/
def LexicalRun.callResult (isInitializer : Bool) (names : Names) (result : Value) :
    LexicalRun Value :=
  if isInitializer then
    match names.find? "this" with
    | some c => LexicalRun.ask (·.cellAt c)
    | none => throw (.internal (.unresolvedBinding "this" 0))
  else return result

/-- Of a call it is noted that it begins, and not how it ends. -/
theorem NotedRun.invoke_eq (execute : Stmt → TracedRun Unit) (call : Invocation)
    (arguments : List Value) :
    invoke Moment.scribe execute call arguments = (do
      tell (.called call.function call.frame)
      let result ← Run.catchReturn
        (inEnvironment call.frame (call.closure.declaration.body.forM execute))
      if call.closure.isInitializer then do
        Run.ofInternal (← lift (Run.ask (·.lookUpAt call.closure.environment 0 "this")))
      else return result) := by
  have silent : ∀ value, note Moment.scribe (.completed call value) = pure () :=
    fun _ => note_of_none fun _ => rfl
  rw [invoke, runBody, catchReturn_of_none fun _ _ => rfl]
  simp only [silent, pure_bind, bind_pure]
  cases call.closure.isInitializer with
  | false => rfl
  | true => simp only [lift_bind, lift_ofInternal, if_true]; rfl

/-- The parameters may as well be defined after the new environment was made and noted. -/
theorem NotedRun.callFunction_eq (execute : Stmt → TracedRun Unit) (f : FunctionId)
    (arguments : List Value) :
    NotedRun.callFunction Moment.scribe execute f arguments = (do
      let closure ← lift (Run.ask (·.functionAt f))
      let e ← (do
        let e ← lift (Run.change (·.newEnvironment ⟨.empty, some closure.environment⟩))
        tell (.called f e)
        return e)
      inEnvironment e (lift (((closure.declaration.parameters.map Token.lexeme).zip
        arguments).forM fun entry => Run.define entry.1 entry.2))
      let result ← Run.catchReturn (inEnvironment e (closure.declaration.body.forM execute))
      if closure.isInitializer then do
        Run.ofInternal (← lift (Run.ask (·.lookUpAt closure.environment 0 "this")))
      else return result) := by
  funext t
  let closure := t.machine.heap.functionAt f
  let entries := (closure.declaration.parameters.map Token.lexeme).zip arguments
  let e : EnvironmentId := ⟨t.machine.heap.environments.size⟩
  let rest : TracedRun Value := do
    let result ← Run.catchReturn (inEnvironment e (closure.declaration.body.forM execute))
    if closure.isInitializer then do
      Run.ofInternal (← lift (Run.ask (·.lookUpAt closure.environment 0 "this")))
    else return result
  -- Defining the parameters one by one gives the table that the machine makes at once.
  have heap := t.machine.heap.newEnvironment_insertAll entries .empty (some closure.environment)
  have defined := inEnvironment_define e entries ⟨{ t.machine with
    heap := (t.machine.heap.newEnvironment ⟨.empty, some closure.environment⟩).2 },
    .called f e :: t.notes⟩
  change invoke Moment.scribe execute ⟨f, closure, t.machine.heap.receiver? closure, e⟩ arguments
    ⟨{ t.machine with heap := (t.machine.heap.newEnvironment
      ⟨Table.empty.insertAll entries, some closure.environment⟩).2 }, t.notes⟩ = _
  rw [invoke_eq]
  change rest ⟨{ t.machine with heap := (t.machine.heap.newEnvironment
    ⟨Table.empty.insertAll entries, some closure.environment⟩).2 }, .called f e :: t.notes⟩ =
    EStateM.bind (inEnvironment e (lift (entries.forM fun entry => Run.define entry.1 entry.2)))
      (fun _ => rest) ⟨{ t.machine with
        heap := (t.machine.heap.newEnvironment ⟨.empty, some closure.environment⟩).2 },
        .called f e :: t.notes⟩
  rw [EStateM.bind, defined, heap]

theorem Joint.newCall_lockstep {j : Joint V D} {f : FunctionId} {code : Code}
    (known : j.world.functions f = some code) (callable : code.unbound = false) :
    j.Lockstep none
      (do
        let e ← NotedRun.lift (Run.change
          (·.newEnvironment ⟨.empty, some code.closure.environment⟩))
        NotedRun.tell (.called f e)
        return e)
      (pure code.names.enter) fun j' e names => e = ⟨j.heap.environments.size⟩ ∧
        (j'.withCurrent e).Stands
          (code.place.enter .empty (.function code.closure.declaration)) names := by
  have related := j.related
  have codeSound := related.sound.functions f code known
  let e : EnvironmentId := ⟨j.heap.environments.size⟩
  let outer := code.closure.environment
  let kind : FrameKind := .call code.closure.declaration f
  let noted := j.world.addMoment (.called f e)
  have soundNoted : noted.Sound V := related.sound.addMoment trivial
  have realNoted : noted.Real j.heap j.store := related.real.addMoment _
  have unknown : j.world.frames e = none := related.real.unknown_environment ⟨.empty, none⟩
  let W := noted.addFrame e (.empty kind outer)
  have later : j.world.Extends none W :=
    (World.Extends.addMoment _).trans (World.Extends.addFrame (W := noted) unknown _)
  have sound : W.Sound V := soundNoted.addEmpty realNoted
    ⟨List.mem_cons_self, code, known, callable, rfl, rfl⟩
  have real : W.Real (j.heap.newEnvironment ⟨.empty, some outer⟩).2 j.store :=
    realNoted.addEmpty (by simp [kind, FrameKind.origin])
  -- The frame is empty, so the lexical side has nothing to do but to open a scope.
  refine .change (a := e) (b := code.names.enter) ?_ rfl
    later sound real { related.alike with } ⟨rfl, rfl, rfl, rfl, fun _ present => present⟩
    fun j' world _ _ => ⟨rfl, ?_⟩
  · change EStateM.Result.ok e (⟨_, .called f e :: j.traced.notes⟩ : Traced) = _
    rw [related.moments]
    rfl
  · have here : W.frames e = some (.empty kind outer) := Function.update_self ..
    have scope := codeSound.scope
    rw [Code.levels, callable] at scope
    have entered : W.Stands e (code.place.enter .empty kind.origin) code.names.enter :=
      World.Stands.enter here (scope.mono later) codeSound.settled
    rw [← world] at entered
    exact entered

/-- The initializer of a class closes over the instance. -/
theorem Joint.this_of_initializer {j : Joint V D} {f : FunctionId} {code : Code}
    (known : j.world.functions f = some code) (callable : code.unbound = false)
    (initializer : code.closure.isInitializer = true) :
    ∃ c, code.names.find? "this" = some c ∧
      j.heap.lookUpAt code.closure.environment 0 "this" = .ok (j.store.cellAt c) := by
  have related := j.related
  have codeSound := related.sound.functions f code known
  -- An initializer is a method, and a method lies in a scope for `this`.
  obtain ⟨text, rest, levels⟩ := codeSound.method (.inl initializer)
  have scope := codeSound.scope
  rw [Code.levels, callable, if_neg (by simp), levels] at scope
  obtain ⟨frame, here, -, complete, around, -, found⟩ := scope
  have flagged : (Resolver.implicitScope "this").find? "this" = some true :=
    Table.find?_insert_self ..
  obtain ⟨c, cell⟩ := complete "this" flagged
  refine ⟨c, by rw [found, if_pos flagged, cell], ?_⟩
  refine Heap.lookUpAt_of_found (a := code.closure.environment) rfl ?_
  rw [show (j.heap.environmentAt _).names.find? "this" = _ from
    (related.real.frames _ frame here).holds "this", cell]
  rfl

theorem Joint.callFunction_lockstep (ruled : Ruled V D) {execute : Stmt → TracedRun Unit}
    {execute' : Names → Stmt → LexicalRun Names} (executes : Executes V D execute execute')
    {j : Joint V D} {f : FunctionId} {code : Code} (known : j.world.functions f = some code)
    (callable : code.unbound = false) {arguments : List Value}
    (arity : arguments.length = code.closure.declaration.arity)
    (fit : ∀ a ∈ arguments, j.world.Fits a) :
    j.Lockstep none (NotedRun.callFunction Moment.scribe execute f arguments)
      (LexicalRun.callFunction execute' f arguments) fun j' a b => j'.Same a b := by
  have related := j.related
  obtain ⟨-, here, there⟩ := related.real.functions f code known
  have codeSound := related.sound.functions f code known
  have unknown := related.real.unknown_environment ⟨.empty, none⟩
  rw [NotedRun.callFunction_eq]
  refine .ask (.asked ?_)
  rw [there, show j.heap.functionAt f = code.closure from here]
  have visited := codeSound.visited
  rw [Function.visits_eq] at visited
  obtain ⟨visitedParameters, visitedBody⟩ := List.forall_mem_append.1 visited
  -- What is left to run once the environment of the call is made.
  have finish : ∀ e (names : Names) (j₁ : Joint V D), j.Before none j₁ →
      (e = ⟨j.heap.environments.size⟩ ∧ (j₁.withCurrent e).Stands
        (code.place.enter .empty (.function code.closure.declaration)) names) →
      j₁.Lockstep (some ⟨j.heap.environments.size⟩)
        (do
          NotedRun.inEnvironment e (NotedRun.lift
            (((code.closure.declaration.parameters.map Token.lexeme).zip arguments).forM fun entry =>
              Run.define entry.1 entry.2))
          let result ← Run.catchReturn
            (NotedRun.inEnvironment e (code.closure.declaration.body.forM execute))
          if code.closure.isInitializer then do
            Run.ofInternal
              (← NotedRun.lift (Run.ask (·.lookUpAt code.closure.environment 0 "this")))
          else return result)
        (do
          let names ← ((code.closure.declaration.parameters.map Token.lexeme).zip arguments).foldlM
            (fun names (name, value) => LexicalRun.bindName names name value) names
          let result ← Run.catchReturn (code.closure.declaration.body.foldlM execute' names)
          LexicalRun.callResult code.closure.isInitializer code.names result)
        fun j' a b => j'.Same a b := by
    rintro _ names j₁ before₁ ⟨rfl, entered⟩
    have fit₁ := fun a member => before₁.world.fits (fit a member)
    refine (Lockstep.inEnvironment (Joint.parameters_lockstep ruled _ _ arity entered (by
      simp [Place.enter]) visitedParameters fit₁)).bind fun _ names₂ j₂ before₂ entered₂ => ?_
    refine (Lockstep.catchReturn (.inEnvironment (executes.all entered₂
      (codeSound.settled.enterFunction _) (Function.wellPlaced_body codeSound.placed)
      visitedBody))).bind fun _ result j₃ before₃ reached => ?_
    obtain ⟨rfl, fits⟩ := reached
    cases initializer : code.closure.isInitializer with
    | false => exact .pure ⟨rfl, fits⟩
    | true =>
      -- An initializer yields its instance, which the closure has had since it was bound.
      have known₃ := before₃.world.functions f code
        (before₂.world.functions f code (before₁.world.functions f code known))
      obtain ⟨c, found, value⟩ := j₃.this_of_initializer known₃ callable initializer
      refine .ask ?_
      rw [value, LexicalRun.callResult, found]
      exact (Lockstep.pure ⟨rfl, j₃.related.real.cellsFit c⟩).of_eq rfl rfl
  exact ((j.newCall_lockstep known callable).enclosed unknown finish).of_eq rfl rfl

/-! ## Classes and values -/

section Calls

variable (ruled : Ruled V D) {execute : Stmt → TracedRun Unit}
  {execute' : Names → Stmt → LexicalRun Names} (executes : Executes V D execute execute')
  {j : Joint V D} {arguments : List Value} (fit : ∀ a ∈ arguments, j.world.Fits a)
include ruled executes fit

theorem Joint.callClass_lockstep {c : ClassId} {fact : ClassFact}
    (known : j.world.classes c = some fact) (arity : arguments.length = j.heap.classArity c) :
    j.Lockstep none (NotedRun.callClass Moment.scribe execute c arguments)
      (LexicalRun.callClass execute' c arguments) fun j' a b => j'.Same a b := by
  refine (j.newInstance_lockstep known).bind fun _ i j₁ before₁ reached => ?_
  obtain ⟨rfl, ofClass, classes⟩ := reached
  have known₁ := before₁.world.classes c fact known
  have sameMethod : j₁.heap.method? c initializerName = j.heap.method? c initializerName :=
    Heap.method?_congr (j₁.related.alike.classes.symm.trans
      (classes.trans j.related.alike.classes)) c initializerName
  refine .ask (.asked ?_)
  rw [show j₁.store.objects.method? c initializerName = j₁.heap.method? c initializerName from
    j₁.related.alike.method? c initializerName]
  -- Without an initializer the new instance is the value; otherwise the initializer runs on it.
  cases found : j₁.heap.method? c initializerName with
  | none => exact .pure ⟨rfl, c, ofClass⟩
  | some f =>
    obtain ⟨code, knownCode⟩ := j.function_of_method known (sameMethod ▸ found)
    have text := (j.related.real.functions f code knownCode).2.1
    have text₁ := (j₁.related.real.functions f code (before₁.world.functions f code knownCode)).2.1
    rw [Heap.classArity, ← sameMethod, found] at arity
    refine (j₁.bindTo_lockstep (j₁.binds_of_method ofClass (.refl c) known₁ found)).bind
      fun _ made j₂ before₂ reached => ?_
    obtain ⟨rfl, code', knownMade, callable, declaration⟩ := reached
    -- The bound closure has the declaration that the arity of the class was taken from.
    have arity' : arguments.length = code'.closure.declaration.arity := by
      rw [declaration, show (j₁.heap.functionAt f) = code.closure from text₁, arity]
      dsimp only
      rw [show (j.heap.functionAt f) = code.closure from text]
    refine (j₂.callFunction_lockstep ruled executes knownMade callable arity' fun a member =>
      before₂.world.fits (before₁.world.fits (fit a member))).bind fun _ _ j₃ before₃ _ => ?_
    exact .pure ⟨rfl, c, before₃.world.instances _ c (before₂.world.instances _ c ofClass)⟩

omit ruled executes fit in
theorem Joint.callNative_lockstep (n : NativeId) :
    j.Lockstep none (NotedRun.lift (Run.callNative n arguments)) (LexicalRun.callNative n arguments)
      fun j' a b => j'.Same a b := by
  have clock : (j.heap.nativeAt n).body = .clock := by
    have natives := j.related.natives
    rw [j.related.alike.natives] at natives
    rw [Heap.nativeAt, Array.getD_eq_getD_getElem?]
    cases found : j.heap.natives[n.index]? with
    | none => rfl
    | some native => exact natives native (Array.mem_of_getElem? found)
  rw [Run.callNative, NotedRun.lift_bind]
  refine .ask (.asked ?_)
  rw [show j.store.objects.nativeAt n = j.heap.nativeAt n from j.related.alike.nativeAt n, clock]
  exact j.readClock_lockstep

theorem Joint.call_lockstep {callee : Value} (fits : j.world.Fits callee)
    (arity : j.heap.arity? callee = some arguments.length) :
    j.Lockstep none (NotedRun.call Moment.scribe execute callee arguments)
      (LexicalRun.call execute' callee arguments) fun j' a b => j'.Same a b := by
  cases callee with
  | native n => exact j.callNative_lockstep n
  | function f =>
    obtain ⟨code, known, callable⟩ := fits
    have text := (j.related.real.functions f code known).2.1
    rw [Heap.arity?, show j.heap.functionAt f = code.closure from text] at arity
    exact j.callFunction_lockstep ruled executes known callable (Option.some.inj arity).symm fit
  | «class» c =>
    obtain ⟨fact, known⟩ := fits
    exact callClass_lockstep ruled executes fit known (Option.some.inj arity).symm
  | _ => cases arity

theorem Joint.callChecked_lockstep (paren : Occurrence) {callee : Value}
    (fits : j.world.Fits callee) :
    j.Lockstep none (NotedRun.callChecked Moment.scribe execute paren callee arguments)
      (LexicalRun.callChecked execute' paren callee arguments) fun j' a b => j'.Same a b := by
  refine .ask (.asked ?_)
  rw [show j.store.objects.arity? callee = j.heap.arity? callee from
    j.related.alike.arity? callee]
  cases arity : j.heap.arity? callee with
  | none => exact .fail
  | some n =>
    by_cases same : arguments.length = n
    · subst same
      simp only [if_true]
      exact j.call_lockstep ruled executes fit fits arity
    · simp only [if_neg same]
      exact .fail

end Calls

end Lox
