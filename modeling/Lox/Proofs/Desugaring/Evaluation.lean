import Lox.Proofs.Desugaring.Runs

/-!
# Texts that shift run alike

By induction on the depth: a tree that shifts along the ladder between two environments, and the same
tree with other numbers, take bridged machines to bridged machines, with the same value or with
signals that mean the same.
-/

namespace Lox

open Run

variable {K : Comparison} {W : Bridge} {l : Ladder} {r : Nat → Nat}

/-! ## Names -/

theorem lookUp_bridged {o : Occurrence} (shifts : o.Shifts K.versions r l.Aligned) :
    Run.Bridged K W l Bridge.Both (lookUp o) (lookUp (o.renumber r)) := by
  apply (Bridged.distance? shifts).bind
  intro W₁ _ _ _ distances
  cases distances with
  -- A local variable is in the environments at the two distances, which correspond.
  | @some distance distance' aligned =>
    replace aligned : l.Aligned (distance : Int).toNat (distance' : Int).toNat := aligned
    apply Bridged.current.bind
    intro W₂ _ e e' linked
    apply (Bridged.ask fun W₃ grows h h' heaps =>
      heaps.spans.lookUpAt (linked.mono grows) aligned o.name).bind
    intro W₃ _ found found' answers
    exact .ofInternal answers fun W₄ grows _ _ both => both.mono grows
  | none =>
    apply Bridged.globals.bind
    rintro W₂ _ _ _ ⟨rfl, rfl⟩
    apply (Bridged.ask fun W₃ grows h h' heaps =>
      grows.globals ▸ heaps.spans.globals_lookUp o r).bind
    intro W₃ _ found found' answers
    exact .ofRuntime answers fun W₄ grows _ _ both => both.mono grows

theorem assign_bridged {o : Occurrence} (shifts : o.Shifts K.versions r l.Aligned) {v v' : Value}
    (both : W.Both v v') :
    Run.Bridged K W l Bridge.Same (assign o v) (assign (o.renumber r) v') := by
  apply (Bridged.distance? shifts).bind
  intro W₁ grows₁ _ _ distances
  cases distances with
  | @some distance distance' aligned =>
    replace aligned : l.Aligned (distance : Int).toNat (distance' : Int).toNat := aligned
    apply Bridged.current.bind
    intro W₂ grows₂ e e' linked
    apply (Bridged.ask fun W₃ grows h h' heaps =>
      heaps.spans.holderAt (linked.mono grows) aligned o.name).bind
    intro W₃ grows₃ found found' answers
    apply (Bridged.ofInternal answers fun W₄ grows o o' pair => grows.pair o o' pair).bind
    intro W₄ grows₄ holder holder' pair
    exact .defineIn pair _ (both.mono (((grows₁.trans grows₂).trans grows₃).trans grows₄))
  | none =>
    apply Bridged.globals.bind
    rintro W₂ grows₂ _ _ ⟨rfl, rfl⟩
    -- A global is assigned to in the same environment on both sides.
    have answers : Run.Bridged K W₂ l (fun W found found' =>
        Answers RuntimeError.Alike (fun o o' => o = W₂.globals ∧ o' = W₂.globals) found found' ∧
          W.pair W₂.globals W₂.globals) (ask (·.holder W₂.globals o))
        (ask (·.holder W₂.globals (o.renumber r))) := .ask fun W₃ grows h h' heaps => by
      rw [← grows.globals]
      exact ⟨heaps.spans.globals_holder o r, heaps.spans.globals_pair⟩
    apply answers.bind
    rintro W₃ grows₃ found found' ⟨holders, pair⟩
    apply (Bridged.ofRuntime holders fun W₄ grows _ _ same => And.intro same
      (grows.pair _ _ pair)).bind
    rintro W₄ grows₄ _ _ ⟨⟨rfl, rfl⟩, pair⟩
    exact .defineIn pair _ (both.mono (((grows₁.trans grows₂).trans grows₃).trans grows₄))

/-! ## Calls -/

/-- Statements that shift run alike. -/
def Comparison.Executes (K : Comparison) (execute execute' : Stmt → Run Unit) : Prop :=
  ∀ W r l s, s.Shifts K.versions r l →
    Run.Bridged K W l Bridge.Same (execute s) (execute' (s.renumber r))

/-- Expressions that shift are evaluated alike. -/
def Comparison.Evaluates (K : Comparison) (evaluate evaluate' : Expr → Run Value) : Prop :=
  ∀ W r l e, e.Shifts K.versions r l →
    Run.Bridged K W l Bridge.Both (evaluate e) (evaluate' (e.renumber r))

/-- Both runs have the values. -/
structure Bridge.AllBoth (W : Bridge) (vs vs' : List Value) : Prop where
  same : vs' = vs
  fit : ∀ v ∈ vs, W.Fits v

theorem Bridge.AllBoth.mono {W W' : Bridge} (grows : W.Grows W') {vs vs' : List Value}
    (both : W.AllBoth vs vs') : W'.AllBoth vs vs' :=
  ⟨both.same, fun v member => (both.fit v member).mono grows⟩

theorem Bridge.TableFits.parameterTable (parameters : List Token) {arguments : List Value}
    (fit : ∀ v ∈ arguments, W.Fits v) : W.TableFits (Run.parameterTable parameters arguments) :=
  Table.Each.empty.insertZip _ fit

theorem Function.allShift_body {V : Versions} {f : Function} (shifts : f.Shifts V r l) :
    Stmt.AllShift V r (.common :: l) f.body := by
  cases f
  exact shifts

/-- Both runs bind a method to an instance. -/
theorem bind_bridged {f : FunctionId} (known : W.method f) (i : InstanceId) :
    Run.Bridged K W l (fun W g g' => g = g' ∧ W.callable g) (change (·.bind f i))
      (change (·.bind f i)) :=
  .change fun W₁ grows h h' heaps => by
    obtain ⟨same, W₂, grows₂, made, callable⟩ := heaps.bind (grows.method f known) i
    exact ⟨W₂, grows₂, made, same.symm, callable⟩

/-- Both runs find the same method. -/
theorem method?_bridged (c : ClassId) (name : String) :
    Run.Bridged K W l (fun W found found' => found = found' ∧ ∀ f ∈ found, W.method f)
      (ask (·.method? c name)) (ask (·.method? c name)) :=
  .ask fun _ _ _ _ heaps =>
    ⟨(heaps.method? c name).symm, fun _ found => heaps.method_of_found found⟩

section Calls

variable {execute execute' : Stmt → Run Unit} (executes : K.Executes execute execute')
include executes

theorem forM_bridged (ss : List Stmt) (shift : Stmt.AllShift K.versions r l ss) :
    Run.Bridged K W l Bridge.Same (ss.forM execute) ((Stmt.renumberAll r ss).forM execute') := by
  induction ss generalizing W with
  | nil => exact .pure fun _ _ => rfl
  | cons s rest inductionHypothesis =>
    obtain ⟨here, later⟩ := shift
    exact (executes W r l s here).bind fun _ _ _ _ _ => inductionHypothesis later

theorem callFunction_bridged {f : FunctionId} (callable : W.callable f)
    {arguments arguments' : List Value} (both : W.AllBoth arguments arguments') :
    Run.Bridged K W l Bridge.Both (callFunction execute f arguments)
      (callFunction execute' f arguments') := by
  obtain ⟨rfl, fit⟩ := both
  apply (Bridged.ask fun W₁ grows h h' heaps => (heaps.callable f (grows.callable f callable)).2).bind
  rintro W₁ grows₁ closure closure' ⟨outer, closures, bound⟩
  obtain ⟨r, declared, shifts⟩ := closures.declaration
  have fit := fun v member => (fit v member).mono grows₁
  have made : Run.Bridged K W₁ l (fun W e e' => W.Linked (.common :: outer) e e')
      (change (·.newEnvironment ⟨parameterTable closure.declaration.parameters arguments',
        some closure.environment⟩))
      (change (·.newEnvironment ⟨parameterTable closure'.declaration.parameters arguments',
        some closure'.environment⟩)) := by
    rw [closures.parameters]
    exact .change fun W₂ grows h h' heaps =>
      heaps.newPair (closures.environment.mono grows) (.mono grows (.parameterTable _ fit))
  apply made.bind
  intro W₂ grows₂ e e' inside
  have body : Run.Bridged K W₂ (.common :: outer) Bridge.Same
      (closure.declaration.body.forM execute) (closure'.declaration.body.forM execute') := by
    rw [declared, Function.body_renumber]
    exact forM_bridged executes _ (Function.allShift_body shifts)
  apply (Bridged.catchReturn (.inEnvironment inside body)).bind
  intro W₃ grows₃ result result' both
  rw [closures.isInitializer]
  cases initializer : closure.isInitializer with
  | false => exact .pure fun W₄ grows => both.mono grows
  | true =>
    -- The instance is in the environment of the closure itself, and that one corresponds on both sides.
    have inside := closures.environment.mono (grows₂.trans grows₃)
    have isOpen : outer.Aligned (0 : Int).toNat (0 : Int).toNat := bound initializer
    apply (Bridged.ask fun W₄ grows h h' heaps =>
      heaps.spans.lookUpAt (inside.mono grows) isOpen "this").bind
    intro W₄ _ found found' answers
    exact .ofInternal answers fun W₅ grows _ _ both => both.mono grows

theorem callClass_bridged (c : ClassId) {arguments arguments' : List Value}
    (both : W.AllBoth arguments arguments') :
    Run.Bridged K W l Bridge.Both (callClass execute c arguments)
      (callClass execute' c arguments') := by
  have made : Run.Bridged K W l Bridge.Same (change (·.newInstance c)) (change (·.newInstance c)) :=
    .change fun W₁ _ h h' heaps =>
      ⟨W₁, .refl W₁, (heaps.newInstance c).2, (heaps.newInstance c).1.symm⟩
  apply made.bind
  rintro W₁ grows₁ object _ rfl
  apply (method?_bridged c initializerName).bind
  rintro W₂ grows₂ initializer _ ⟨rfl, methods⟩
  cases initializer with
  | none => exact .pure fun _ _ => ⟨rfl, trivial⟩
  | some initializer =>
    apply (bind_bridged (methods initializer rfl) object).bind
    rintro W₃ grows₃ bound _ ⟨rfl, callable⟩
    apply (callFunction_bridged executes callable
      (both.mono ((grows₁.trans grows₂).trans grows₃))).bind
    intro _ _ _ _ _
    exact .pure fun _ _ => ⟨rfl, trivial⟩

omit executes in
theorem callNative_bridged (n : NativeId) {arguments arguments' : List Value}
    (both : W.AllBoth arguments arguments') :
    Run.Bridged K W l Bridge.Both (callNative n arguments) (callNative n arguments') := by
  obtain ⟨rfl, fit⟩ := both
  have natives : Run.Bridged K W l (fun _ native native' => native = native' ∧ native.body.Honest)
      (ask (·.nativeAt n)) (ask (·.nativeAt n)) :=
    .ask fun W₁ _ h h' heaps => ⟨(heaps.nativeAt n).symm, heaps.honest n⟩
  apply natives.bind
  rintro W₁ grows₁ native _ ⟨rfl, honest⟩
  cases body : native.body with
  | clock => exact .readClock
  | compute result =>
    rw [body] at honest
    refine .pure fun W₂ grows₂ => ⟨rfl, ?_⟩
    cases value : result arguments' with
    | function f => exact (fit _ (honest arguments' f value)).mono (grows₁.trans grows₂)
    | _ => trivial

theorem call_bridged {callee callee' : Value} (callees : W.Both callee callee')
    {arguments arguments' : List Value} (both : W.AllBoth arguments arguments') :
    Run.Bridged K W l Bridge.Both (call execute callee arguments)
      (call execute' callee' arguments') := by
  obtain ⟨rfl, fits⟩ := callees
  cases callee' with
  | native n => exact callNative_bridged n both
  | function f => exact callFunction_bridged executes fits both
  | «class» c => exact callClass_bridged executes c both
  | _ => exact .pure fun _ _ => ⟨rfl, trivial⟩

theorem callChecked_bridged (paren : Occurrence) {callee callee' : Value}
    (callees : W.Both callee callee') {arguments arguments' : List Value}
    (both : W.AllBoth arguments arguments') :
    Run.Bridged K W l Bridge.Both (callChecked execute paren callee arguments)
      (callChecked execute' paren callee' arguments') := by
  have arities : Run.Bridged K W l Bridge.Same (ask (·.arity? callee)) (ask (·.arity? callee')) :=
    .ask fun W₁ grows h h' heaps => by
      rw [Bridge.Same, callees.same, heaps.arity? (callees.fits.mono grows)]
  apply arities.bind
  rintro W₁ grows arity _ rfl
  obtain ⟨rfl, fit⟩ := both
  cases arity with
  | none => exact .fail rfl _
  | some arity =>
    dsimp only
    split
    · exact call_bridged executes (callees.mono grows) (.mono grows ⟨rfl, fit⟩)
    · exact .fail rfl _

end Calls

/-! ## Properties -/

theorem property_bridged {object object' : Value} (objects : W.Both object object')
    (key : Occurrence) :
    Run.Bridged K W l Bridge.Both (property object key) (property object' key) := by
  obtain ⟨rfl, -⟩ := objects
  cases object' with
  | «instance» i =>
    have members : Run.Bridged K W l (fun W found found' => found' = found ∧
        (∀ v, found = .ok (.field v) → W.Fits v) ∧ ∀ f, found = .ok (.method f) → W.method f)
        (ask (·.member i key)) (ask (·.member i key)) :=
      .ask fun W₁ _ h h' heaps => ⟨heaps.member i key, heaps.member_fits⟩
    apply members.bind
    rintro W₁ _ _ found ⟨rfl, fields, methods⟩
    apply (Bridged.ofRuntime (Q := fun W a a' => a = a' ∧ (∀ v, a = .field v → W.Fits v) ∧
      ∀ f, a = .method f → W.method f) (.refl .refl found) fun W₂ grows a a' here => ⟨here.1,
        fun v field => (fields v (here.2.trans (congrArg _ field))).mono grows,
        fun f method => grows.method f (methods f (here.2.trans (congrArg _ method)))⟩).bind
    rintro W₂ _ a _ ⟨rfl, field, method⟩
    cases a with
    | field v => exact .pure fun W₃ grows => ⟨rfl, (field v rfl).mono grows⟩
    | method f =>
      apply (bind_bridged (method f rfl) i).bind
      rintro W₃ _ bound _ ⟨rfl, callable⟩
      exact .pure fun W₄ grows => ⟨rfl, grows.callable bound callable⟩
  | _ => exact .fail rfl _

theorem assignProperty_bridged {object object' : Value} (objects : W.Both object object')
    (key : Occurrence) {value value' : Run Value}
    (values : Run.Bridged K W l Bridge.Both value value') :
    Run.Bridged K W l Bridge.Both (assignProperty object key value)
      (assignProperty object' key value') := by
  obtain ⟨rfl, -⟩ := objects
  cases object' with
  | «instance» i =>
    apply values.bind
    rintro W₁ _ _ v ⟨rfl, fits⟩
    have written : Run.Bridged K W₁ l Bridge.Same
        (change fun h => ((), h.setField i key.name v))
        (change fun h => ((), h.setField i key.name v)) := .change fun W₂ grows h h' heaps =>
      ⟨W₂, .refl W₂, heaps.setField i key.name (fits.mono grows), rfl⟩
    apply written.bind
    intro W₂ grows _ _ _
    exact .pure fun W₃ grows₃ => ⟨rfl, fits.mono (grows.trans grows₃)⟩
  | _ => exact .fail rfl _

theorem superMethod_bridged {keyword : Occurrence}
    (shifts : keyword.Shifts K.versions r l.SuperAligned) (method : Occurrence) :
    Run.Bridged K W l Bridge.Both (superMethod keyword method)
      (superMethod (keyword.renumber r) method) := by
  apply (Bridged.distance? shifts).bind
  intro W₁ _ _ _ distances
  cases distances with
  | none => exact .throw fun _ _ => .unresolvedSuper
  | @some distance distance' aligned =>
    -- The receiver is one scope further in than the superclass, on both sides.
    have superclasses : l.Aligned (distance : Int).toNat (distance' : Int).toNat := aligned.1
    have receivers : l.Aligned ((distance : Int) - 1).toNat ((distance' : Int) - 1).toNat := by
      simpa using aligned.2
    apply Bridged.current.bind
    intro W₂ _ e e' linked
    apply (Bridged.ask fun W₃ grows h h' heaps =>
      heaps.spans.lookUpAt (linked.mono grows) superclasses "super").bind
    intro W₃ grows₃ found found' answers
    apply (Bridged.ofInternal answers fun W₄ grows _ _ both => both.mono grows).bind
    rintro W₄ grows₄ _ superclass ⟨rfl, -⟩
    have linked := linked.mono (grows₃.trans grows₄)
    apply (Bridged.ask fun W₅ grows h h' heaps =>
      heaps.spans.lookUpAt (linked.mono grows) receivers "this").bind
    intro W₅ _ found found' answers
    apply (Bridged.ofInternal answers fun W₆ grows _ _ both => both.mono grows).bind
    rintro W₆ _ _ object ⟨rfl, -⟩
    split
    · next c i =>
      apply (method?_bridged c method.name).bind
      rintro W₇ _ found _ ⟨rfl, methods⟩
      cases found with
      | none => exact .fail rfl _
      | some f =>
        apply (bind_bridged (methods f rfl) i).bind
        rintro W₈ _ bound _ ⟨rfl, callable⟩
        exact .pure fun W₉ grows => ⟨rfl, grows.callable bound callable⟩
    · exact .throw fun _ _ => .internal .malformedSuper

/-! ## Declarations -/

/-- Functions with one text, in environments that are linked along `outer`. -/
theorem newFunction_bridged {f : Function} {outer : Ladder} (shifts : f.Shifts K.versions r outer)
    (isOpen : outer.Open) {e e' : EnvironmentId} (linked : W.Linked outer e e') :
    Run.Bridged K W l (fun W f f' => f = f' ∧ W.callable f) (change (·.newFunction ⟨f, e, false⟩))
      (change (·.newFunction ⟨f.renumber r, e', false⟩)) :=
  .change fun W₁ grows h h' heaps => by
    have both : Closure.BothCallable K.versions W₁ ⟨f, e, false⟩ ⟨f.renumber r, e', false⟩ :=
      ⟨outer, ⟨linked.mono grows, rfl, r, rfl, shifts⟩, fun _ => isOpen⟩
    obtain ⟨W₂, grows₂, made, callable⟩ := heaps.newCallable both
    exact ⟨W₂, grows₂, made, (heaps.newFunction_same _ _).symm, callable⟩

theorem declareFunction_bridged {f : Function} (isOpen : l.Open)
    (shifts : f.Shifts K.versions r l) :
    Run.Bridged K W l Bridge.Same (declareFunction f) (declareFunction (f.renumber r)) := by
  apply Bridged.current.bind
  intro W₁ _ e e' linked
  apply (newFunction_bridged shifts isOpen linked).bind
  rintro W₂ _ made _ ⟨rfl, callable⟩
  rw [Function.name_renumber]
  exact .define isOpen _ ⟨rfl, callable⟩

theorem superclassOf_bridged {o : Occurrence} (shifts : o.Shifts K.versions r l.Aligned) :
    Run.Bridged K W l Bridge.Same (superclassOf o) (superclassOf (o.renumber r)) := by
  apply (lookUp_bridged shifts).bind
  rintro W₁ _ _ value ⟨rfl, -⟩
  have places : (o.renumber r).token = o.token := rfl
  cases value with
  | «class» c => exact .pure fun _ _ => rfl
  | _ => exact .fail places _

/-- What the table holds are methods on both sides. -/
structure Bridge.BothTables (W : Bridge) (t t' : Table FunctionId) : Prop where
  same : t' = t
  methods : ∀ name f, t.find? name = some f → W.method f

theorem Bridge.BothTables.mono {W W' : Bridge} (grows : W.Grows W') {t t' : Table FunctionId}
    (both : W.BothTables t t') : W'.BothTables t t' :=
  ⟨both.same, fun name f found => grows.method f (both.methods name f found)⟩

theorem addMethod_bridged {outer : Ladder} {e e' : EnvironmentId} (linked : W.Linked outer e e')
    {method : Function} (shifts : method.Shifts K.versions r (.common :: outer))
    {table table' : Table FunctionId} (tables : W.BothTables table table') :
    Run.Bridged K W l Bridge.BothTables (addMethod e table method)
      (addMethod e' table' (method.renumber r)) := by
  obtain ⟨rfl, known⟩ := tables
  have made : Run.Bridged K W l (fun W f f' => f = f' ∧ W.method f)
      (change (·.newFunction ⟨method, e, method.isInitializer⟩))
      (change (·.newFunction ⟨method.renumber r, e', (method.renumber r).isInitializer⟩)) :=
    .change fun W₁ grows h h' heaps => by
      -- The two closures are of one method, in environments that correspond.
      have both : Closure.BothMethods K.versions W₁ ⟨method, e, method.isInitializer⟩
          ⟨method.renumber r, e', (method.renumber r).isInitializer⟩ :=
        ⟨outer, linked.mono grows, Function.isInitializer_renumber method, r, rfl, shifts⟩
      obtain ⟨W₂, grows₂, made, method⟩ := heaps.newMethod both
      exact ⟨W₂, grows₂, made, (heaps.newFunction_same _ _).symm, method⟩
  apply made.bind
  rintro W₁ grows₁ f _ ⟨rfl, new⟩
  refine .pure fun W₂ grows₂ => ⟨by rw [Function.name_renumber], fun name g found => ?_⟩
  rw [Table.find?_insert] at found
  split at found
  · exact Option.some.inj found ▸ grows₂.method f new
  · exact (grows₁.trans grows₂).method g (known name g found)

theorem methodTable_bridged {outer : Ladder} {e e' : EnvironmentId} (linked : W.Linked outer e e')
    (methods : List Function) (shift : Function.AllShift K.versions r (.common :: outer) methods)
    {table table' : Table FunctionId} (tables : W.BothTables table table') :
    Run.Bridged K W l Bridge.BothTables (methods.foldlM (addMethod e) table)
      ((Function.renumberAll r methods).foldlM (addMethod e') table') := by
  induction methods generalizing W table table' with
  | nil => exact .pure fun _ grows => tables.mono grows
  | cons method rest inductionHypothesis =>
    obtain ⟨here, later⟩ := shift
    rw [Function.renumberAll, List.foldlM_cons, List.foldlM_cons]
    apply (addMethod_bridged linked here tables).bind
    intro W₁ grows _ _ tables
    exact inductionHypothesis (linked.mono grows) later tables

/-- The end of a class declaration: the methods close over linked environments. -/
theorem makeClass_bridged {outer : Ladder} {name : Occurrence} {methods : List Function}
    (shift : Function.AllShift K.versions r (.common :: outer) methods) (parent : Option ClassId)
    {e e' inner inner' : EnvironmentId} (known : W.defined e e' name.name)
    (linked : W.Linked outer inner inner') :
    Run.Bridged K W l Bridge.Same
      (do
        let table ← methodTable inner methods
        let c ← change (·.newClass ⟨name.name, parent, table⟩)
        let holder ← ofRuntime (← ask (·.holder e name))
        defineIn holder name.name (.class c))
      (do
        let table ← methodTable inner' (Function.renumberAll r methods)
        let c ← change (·.newClass ⟨name.name, parent, table⟩)
        let holder ← ofRuntime (← ask (·.holder e' name))
        defineIn holder name.name (.class c)) := by
  rw [methodTable_eq, methodTable_eq]
  apply (methodTable_bridged linked methods shift ⟨rfl, by rintro _ _ ⟨⟩⟩).bind
  rintro W₁ grows₁ _ table ⟨rfl, tables⟩
  have made : Run.Bridged K W₁ l Bridge.Same (change (·.newClass ⟨name.name, parent, table⟩))
      (change (·.newClass ⟨name.name, parent, table⟩)) := .change fun W₂ grows h h' heaps => by
    obtain ⟨same, made⟩ := heaps.newClass ⟨name.name, parent, table⟩
      fun x f found => grows.method f (tables x f found)
    exact ⟨W₂, .refl W₂, made, same.symm⟩
  apply made.bind
  rintro W₂ grows₂ c _ rfl
  -- The name of the class was defined before its methods, so its holder is the environment itself.
  have known := (grows₁.trans grows₂).defined e e' _ known
  have holders : Run.Bridged K W₂ l (fun W found found' => found = .ok e ∧ found' = .ok e' ∧
      W.pair e e') (ask (·.holder e name)) (ask (·.holder e' name)) :=
    .ask fun W₃ grows h h' heaps => by
      have known := grows.defined e e' _ known
      obtain ⟨here, here'⟩ := heaps.spans.holder_defined known
      exact ⟨here, here', (heaps.spans.defined e e' _ known).1⟩
  apply holders.bind
  rintro W₃ _ _ _ ⟨rfl, rfl, pair⟩
  exact .defineIn pair _ ⟨rfl, trivial⟩

theorem declareClass_bridged (isOpen : l.Open) (name : Occurrence) {superclass : Option Occurrence}
    (parents : ∀ o ∈ superclass, o.Shifts K.versions r l.Aligned) {methods : List Function}
    (shift : Function.AllShift K.versions r (.common :: l.inner superclass) methods) :
    Run.Bridged K W l Bridge.Same (declareClass name superclass methods)
      (declareClass name (superclass.map (Occurrence.renumber r))
        (Function.renumberAll r methods)) := by
  have parent : Run.Bridged K W l (fun _ parent parent' => parent = parent' ∧
      parent.isSome = superclass.isSome) (superclass.mapM superclassOf)
      ((superclass.map (Occurrence.renumber r)).mapM superclassOf) := by
    cases superclass with
    | none => exact .pure fun _ _ => ⟨rfl, rfl⟩
    | some o =>
      exact (superclassOf_bridged (parents o rfl)).map fun _ _ _ same _ _ => ⟨congrArg some same, rfl⟩
  apply parent.bind
  rintro W₁ _ parent _ ⟨rfl, isSome⟩
  have unset : W₁.Both .nil .nil := ⟨rfl, trivial⟩
  apply Bridged.declare isOpen name.name unset
  intro W₂ _ e e' linked known
  -- Only a class with a superclass gets an environment of its own for `super`.
  cases parent with
  | none =>
    obtain rfl : superclass = none := by simpa using isSome.symm
    exact makeClass_bridged shift none known linked
  | some c =>
    obtain ⟨o, rfl⟩ := Option.isSome_iff_exists.1 isSome.symm
    have made : Run.Bridged K W₂ l (fun W i i' => W.Linked (.common :: l) i i')
        (change (·.newEnvironment ⟨Table.empty.insert "super" (.class c), some e⟩))
        (change (·.newEnvironment ⟨Table.empty.insert "super" (.class c), some e'⟩)) :=
      .change fun W₃ grows h h' heaps =>
        heaps.newPair (linked.mono grows) (Bridge.TableFits.empty.insert "super" trivial)
    apply made.bind
    intro W₃ grows inner inner' inside
    exact makeClass_bridged shift (some c) (grows.defined e e' _ known) inside

/-! ## Evaluation -/

theorem operation_bridged (operator : Occurrence) {result : Except RuntimeFault Value}
    (scalar : ∀ v, result = .ok v → v.IsScalar) :
    Run.Bridged K W l Bridge.Both (operation operator result) (operation operator result) := by
  cases result with
  | ok v => exact .pure fun W₁ _ => ⟨rfl, .of_scalar (scalar v rfl)⟩
  | error fault => exact .fail rfl fault

section Step

variable {loops depth depth' : Nat}
  (evaluates : K.Evaluates (evaluate loops depth) (evaluate loops depth'))
  (executes : K.Executes (execute loops depth) (execute loops depth'))
include evaluates

theorem mapM_bridged (es : List Expr) (shift : Expr.AllShift K.versions r l es) :
    Run.Bridged K W l Bridge.AllBoth (es.mapM (evaluate loops depth))
      ((Expr.renumberAll r es).mapM (evaluate loops depth')) := by
  induction es generalizing W with
  | nil => exact .pure fun _ _ => ⟨rfl, by simp⟩
  | cons e rest inductionHypothesis =>
    obtain ⟨here, later⟩ := shift
    rw [Expr.renumberAll, List.mapM_cons, List.mapM_cons]
    apply (evaluates W r l e here).bind
    rintro W₁ _ _ v ⟨rfl, fits⟩
    apply (inductionHypothesis later).bind
    rintro W₂ grows₂ _ vs ⟨rfl, fit⟩
    exact .pure fun W₃ grows₃ => ⟨rfl, List.forall_mem_cons.2
      ⟨fits.mono (grows₂.trans grows₃), fun w member => (fit w member).mono grows₃⟩⟩

include executes

theorem evaluate_succ_bridged {e : Expr} (shifts : e.Shifts K.versions r l) :
    Run.Bridged K W l Bridge.Both (evaluate loops (depth + 1) e)
      (evaluate loops (depth' + 1) (e.renumber r)) := by
  rw [evaluate.eq_def, evaluate.eq_def loops (depth' + 1)]
  cases e with
  | literal value => exact .pure fun W₁ _ => ⟨rfl, .of_scalar (Value.ofLiteral_scalar value)⟩
  | grouping inner => exact evaluates W r l inner shifts
  | name target => exact lookUp_bridged shifts
  | assign target value =>
    apply (evaluates W r l value shifts.1).bind
    intro W₁ _ v v' both
    apply (assign_bridged shifts.2 both).bind
    intro W₂ grows _ _ _
    exact .pure fun W₃ grows₃ => both.mono (grows.trans grows₃)
  | unary operator operand =>
    apply (evaluates W r l operand shifts).bind
    rintro W₁ _ _ v ⟨rfl, -⟩
    exact operation_bridged operator fun _ => unaryOperation_scalar
  | binary left operator right =>
    apply (evaluates W r l left shifts.1).bind
    rintro W₁ _ _ v ⟨rfl, -⟩
    apply (evaluates W₁ r l right shifts.2).bind
    rintro W₂ _ _ w ⟨rfl, -⟩
    exact operation_bridged operator fun _ => binaryOperation_scalar
  | logical left operator right =>
    apply (evaluates W r l left shifts.1).bind
    rintro W₁ _ _ v ⟨rfl, fits⟩
    -- Both sides have the same value, so they decide alike.
    split
    · exact .pure fun W₂ grows => ⟨rfl, fits.mono grows⟩
    · exact evaluates W₁ r l right shifts.2
  | call callee paren arguments =>
    apply (evaluates W r l callee shifts.1).bind
    intro W₁ _ v v' callees
    apply (mapM_bridged evaluates arguments shifts.2).bind
    intro W₂ grows vs vs' both
    exact callChecked_bridged executes paren (callees.mono grows) both
  | get object property =>
    apply (evaluates W r l object shifts).bind
    intro W₁ _ v v' objects
    exact property_bridged objects property
  | set object property value =>
    apply (evaluates W r l object shifts.2).bind
    intro W₁ _ v v' objects
    exact assignProperty_bridged objects property (evaluates W₁ r l value shifts.1)
  | this keyword => exact lookUp_bridged shifts
  | super keyword method => exact superMethod_bridged shifts method

theorem execute_succ_bridged {s : Stmt} (shifts : s.Shifts K.versions r l) :
    Run.Bridged K W l Bridge.Same (execute loops (depth + 1) s)
      (execute loops (depth' + 1) (s.renumber r)) := by
  rw [execute.eq_def, execute.eq_def loops (depth' + 1)]
  cases s with
  | expression value =>
    apply (evaluates W r l value shifts).bind
    intro _ _ _ _ _
    exact .pure fun _ _ => rfl
  | print value =>
    apply (evaluates W r l value shifts).bind
    intro W₁ _ v v' both
    exact .print both
  | var name initializer =>
    cases initializer with
    | none =>
      have unset : W.Both .nil .nil := ⟨rfl, trivial⟩
      exact .define shifts _ unset
    | some initializer =>
      apply (evaluates W r l initializer shifts.2).bind
      intro W₁ _ v v' both
      exact .define shifts.1 _ both
  -- A block opens a scope on both sides, which is one more rung.
  | block body => exact .inScope fun W₁ _ => forM_bridged executes body shifts
  | ite condition thenBranch elseBranch =>
    cases elseBranch with
    | none =>
      apply (evaluates W r l condition shifts.1).bind
      rintro W₁ _ _ v ⟨rfl, -⟩
      dsimp only [Stmt.renumber]
      split
      · exact executes W₁ r l thenBranch shifts.2
      · exact .pure fun _ _ => rfl
    | some elseBranch =>
      apply (evaluates W r l condition shifts.1).bind
      rintro W₁ _ _ v ⟨rfl, -⟩
      dsimp only [Stmt.renumber]
      split
      · exact executes W₁ r l thenBranch shifts.2.1
      · exact executes W₁ r l elseBranch shifts.2.2
  | «while» condition body =>
    have conditions : Run.Bridged K W l Bridge.Same
        (Value.isTruthy <$> evaluate loops depth condition)
        (Value.isTruthy <$> evaluate loops depth' (condition.renumber r)) :=
      (evaluates W r l condition shifts.1).map fun _ _ _ both _ _ =>
        congrArg Value.isTruthy both.same.symm
    exact .repeatWhile conditions (executes W r l body shifts.2) loops
  | function declaration => exact declareFunction_bridged shifts.1 shifts.2
  | «return» keyword value =>
    cases value with
    | none => exact .throw fun _ _ => .returned ⟨rfl, trivial⟩
    | some value =>
      apply (evaluates W r l value shifts).bind
      intro W₁ _ v v' both
      exact .throw fun W₂ grows => .returned (both.mono grows)
  | «class» name superclass methods =>
    exact declareClass_bridged shifts.1 name shifts.2.1 shifts.2.2

end Step

/-- The weaker run is exhausted, or both may go one level deeper. -/
theorem Comparison.Allows.cases {depth depth' : Nat} (allows : K.Allows 0 depth depth') :
    (K.weaker = .left ∧ depth = 0) ∨ (K.weaker = .right ∧ depth' = 0) ∨
      ∃ n n', depth = n + 1 ∧ depth' = n' + 1 ∧ K.Allows 0 n n' := by
  rcases allows with ⟨weaker, deeper⟩ | ⟨weaker, deeper⟩
  · cases depth with
    | zero => exact .inl ⟨weaker, rfl⟩
    | succ n =>
      obtain ⟨n', rfl⟩ := Nat.exists_eq_add_of_le' (Nat.le_trans (Nat.le_add_left 1 n) deeper)
      exact .inr (.inr ⟨n, n', rfl, rfl, .inl ⟨weaker, by omega⟩⟩)
  · cases depth' with
    | zero => exact .inr (.inl ⟨weaker, rfl⟩)
    | succ n' =>
      obtain ⟨n, rfl⟩ := Nat.exists_eq_add_of_le' (Nat.le_trans (Nat.le_add_left 1 n') deeper)
      exact .inr (.inr ⟨n, n', rfl, rfl, .inr ⟨weaker, by omega⟩⟩)

/-- Texts that shift run alike, if no run that may not be exhausted nests less deeply. -/
theorem evaluation_bridged (K : Comparison) (loops : Nat) {depth depth' : Nat}
    (allows : K.Allows 0 depth depth') :
    K.Evaluates (evaluate loops depth) (evaluate loops depth') ∧
      K.Executes (execute loops depth) (execute loops depth') := by
  -- Both depths fall by one at each node, so the smaller one stays so.
  induction depth generalizing depth' with
  | zero =>
    rcases allows.cases with ⟨weaker, -⟩ | ⟨weaker, rfl⟩ | ⟨n, n', same, -⟩
    · exact ⟨fun _ _ _ _ _ => .spentLeft weaker, fun _ _ _ _ _ => .spentLeft weaker⟩
    · exact ⟨fun _ _ _ _ _ => .spentRight weaker, fun _ _ _ _ _ => .spentRight weaker⟩
    · cases same
  | succ depth inductionHypothesis =>
    rcases allows.cases with ⟨-, same⟩ | ⟨weaker, rfl⟩ | ⟨n, n', same, rfl, further⟩
    · cases same
    · exact ⟨fun _ _ _ _ _ => .spentRight weaker, fun _ _ _ _ _ => .spentRight weaker⟩
    · obtain rfl := Nat.succ.inj same
      obtain ⟨evaluates, executes⟩ := inductionHypothesis further
      exact ⟨fun _ _ _ _ shifts => evaluate_succ_bridged evaluates executes shifts,
        fun _ _ _ _ shifts => execute_succ_bridged evaluates executes shifts⟩

end Lox
