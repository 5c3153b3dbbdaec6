import Lox.Evaluation.Evaluate
import Lox.Proofs.Heap.Frames
import Lox.Proofs.Matching.Trees

/-!
# Machines that match

Two machines match if they differ only in the texts of the functions that they hold, up to a matching,
and in what they printed before. A run looks at tokens for their text only, and at occurrences for
their distances. So `Run.Matched` runs take matching machines to matching machines.
-/

namespace Lox

/-! ## States -/

structure Closure.Matched (M : Matching) (c c' : Closure) : Prop where
  name : c'.declaration.name.lexeme = c.declaration.name.lexeme
  parameters : c'.declaration.parameters.map Token.lexeme =
    c.declaration.parameters.map Token.lexeme
  body : List.Forall₂ (Stmt.Matched M) c.declaration.body c'.declaration.body
  environment : c'.environment = c.environment
  isInitializer : c'.isInitializer = c.isInitializer

/-- The same objects in the same places, with matching functions. -/
structure Heap.Matched (M : Matching) (h h' : Heap) : Prop where
  environments : h'.environments = h.environments
  natives : h'.natives = h.natives
  classes : h'.classes = h.classes
  instances : h'.instances = h.instances
  size : h'.functions.size = h.functions.size
  functions : ∀ f, (h.functionAt f).Matched M (h'.functionAt f)

/-- How the runs of two machines correspond. -/
structure Pairing where
  matching : Matching
  distances : Distances
  distances' : Distances
  agree : ∀ o o', matching.occurrences o o' → distances'.find? o'.id = distances.find? o.id
  /-- What the second machine printed before the first one started. -/
  before : Array String

structure Machine.Matched (K : Pairing) (m m' : Machine) : Prop where
  heap : m.heap.Matched K.matching m'.heap
  globals : m'.globals = m.globals
  current : m'.current = m.current
  distances : m.distances = K.distances
  distances' : m'.distances = K.distances'
  printed : m'.printed = K.before ++ m.printed
  clock : m'.clock = m.clock
  readings : m'.readings = m.readings

/-- The same fault at matching occurrences. -/
structure RuntimeError.Matched (M : Matching) (e e' : RuntimeError) : Prop where
  fault : e'.fault = e.fault
  occurrence : M.occurrences e.occurrence e'.occurrence

/-- The same value, or the same fault at matching occurrences. -/
inductive Matching.Results (M : Matching) {α : Type} :
    Except RuntimeError α → Except RuntimeError α → Prop
  | ok (a : α) : Results M (.ok a) (.ok a)
  | error {error error' : RuntimeError} : error.Matched M error' →
      Results M (.error error) (.error error')

inductive Signal.Matched (M : Matching) : Signal → Signal → Prop
  | failed {error error' : RuntimeError} : error.Matched M error' →
      Matched M (.failed error) (.failed error')
  | returned (value : Value) : Matched M (.returned value) (.returned value)
  | internal (fault : InternalFault) : Matched M (.internal fault) (.internal fault)
  | unresolvedSuper : Matched M .unresolvedSuper .unresolvedSuper
  | exhausted : Matched M .exhausted .exhausted

section Richer

variable {M M' : Matching} (le : M ≤ M')
include le

theorem Closure.Matched.mono {c c' : Closure} (matched : c.Matched M c') : c.Matched M' c' :=
  { matched with body := Stmt.matched_mono le matched.body }

theorem Heap.Matched.mono {h h' : Heap} (matched : h.Matched M h') : h.Matched M' h' :=
  { matched with functions := fun f => (matched.functions f).mono le }

end Richer

/-! ## Operations on the heap -/

variable {M : Matching}

namespace Closure.Matched

variable {c c' : Closure} (matched : c.Matched M c')
include matched

theorem arity : c'.declaration.arity = c.declaration.arity := by
  have lengths := congrArg List.length matched.parameters
  rwa [List.length_map, List.length_map] at lengths

theorem parameterTable (arguments : List Value) :
    Run.parameterTable c'.declaration.parameters arguments =
      Run.parameterTable c.declaration.parameters arguments := by
  rw [Run.parameterTable, Run.parameterTable, matched.parameters]

end Closure.Matched

theorem Function.Matched.closure {f f' : Function} (matched : f.Matched M f')
    (environment : EnvironmentId) (isInitializer : Bool) :
    Closure.Matched M ⟨f, environment, isInitializer⟩ ⟨f', environment, isInitializer⟩ :=
  ⟨M.lexeme matched.name, M.lexemes matched.parameters, matched.body, rfl, rfl⟩

namespace Heap.Matched

variable {h h' : Heap} (matched : h.Matched M h')
include matched

theorem nativeAt (n : NativeId) : h'.nativeAt n = h.nativeAt n := by
  rw [Heap.nativeAt, Heap.nativeAt, matched.natives]

theorem classAt (c : ClassId) : h'.classAt c = h.classAt c := by
  rw [Heap.classAt, Heap.classAt, matched.classes]

theorem instanceAt (i : InstanceId) : h'.instanceAt i = h.instanceAt i := by
  rw [Heap.instanceAt, Heap.instanceAt, matched.instances]

theorem method? (c : ClassId) (name : String) : h'.method? c name = h.method? c name :=
  method?_congr matched.classes c name

theorem arity? (value : Value) : h'.arity? value = h.arity? value := by
  cases value with
  | native n => simp only [Heap.arity?, matched.nativeAt]
  | function f => simp only [Heap.arity?, (matched.functions f).arity]
  | «class» c => simp only [Heap.arity?, classArity, matched.method?, (matched.functions _).arity]
  | _ => rfl

theorem display (value : Value) : h'.display value = h.display value := by
  cases value with
  | function f => simp only [Heap.display, (matched.functions f).name]
  | «class» c => simp only [Heap.display, matched.classAt]
  | «instance» i => simp only [Heap.display, matched.classAt, matched.instanceAt]
  | _ => rfl

theorem holder (e : EnvironmentId) {o o' : Occurrence} (mentions : M.occurrences o o') :
    M.Results (h.holder e o) (h'.holder e o') := by
  rw [Heap.holder, Heap.holder, M.name mentions, holder?_congr matched.environments]
  cases h.holder? e o.name with
  | none => exact .error ⟨rfl, mentions⟩
  | some holder => exact .ok holder

theorem lookUp (e : EnvironmentId) {o o' : Occurrence} (mentions : M.occurrences o o') :
    M.Results (h.lookUp e o) (h'.lookUp e o') := by
  have holders := matched.holder e mentions
  rw [Heap.lookUp, Heap.lookUp]
  generalize h.holder e o = found, h'.holder e o' = found' at holders
  cases holders with
  | error error => exact .error error
  | ok holder =>
    have same : h'.valueIn holder o'.name = h.valueIn holder o.name := by
      rw [valueIn, valueIn, environmentAt_congr matched.environments, M.name mentions]
    change M.Results (.ok (h.valueIn holder o.name)) (.ok (h'.valueIn holder o'.name))
    rw [same]
    exact .ok _

theorem member (i : InstanceId) {o o' : Occurrence} (keys : M.occurrences o o') :
    M.Results (h.member i o) (h'.member i o') := by
  simp only [Heap.member, matched.instanceAt, matched.method?, M.name keys]
  split
  · exact .ok _
  · split
    · exact .ok _
    · exact .error ⟨rfl, keys⟩

/-! ### Changes -/

theorem define (e : EnvironmentId) (name : String) (value : Value) :
    (h.define e name value).Matched M (h'.define e name value) :=
  { matched with environments := by simp only [Heap.define, matched.environments] }

theorem setField (i : InstanceId) (name : String) (value : Value) :
    (h.setField i name value).Matched M (h'.setField i name value) :=
  { matched with instances := by simp only [Heap.setField, matched.instances] }

theorem newEnvironment (e : Environment) :
    (h'.newEnvironment e).1 = (h.newEnvironment e).1 ∧
      (h.newEnvironment e).2.Matched M (h'.newEnvironment e).2 := by
  simp only [Heap.newEnvironment, matched.environments, true_and]
  exact { matched with environments := rfl }

theorem newClass (c : Class) :
    (h'.newClass c).1 = (h.newClass c).1 ∧ (h.newClass c).2.Matched M (h'.newClass c).2 := by
  simp only [Heap.newClass, matched.classes, true_and]
  exact { matched with classes := rfl }

theorem newInstance (c : ClassId) :
    (h'.newInstance c).1 = (h.newInstance c).1 ∧
      (h.newInstance c).2.Matched M (h'.newInstance c).2 := by
  simp only [Heap.newInstance, matched.instances, true_and]
  exact { matched with instances := rfl }

theorem newFunction {c c' : Closure} (closures : c.Matched M c') :
    (h'.newFunction c').1 = (h.newFunction c).1 ∧
      (h.newFunction c).2.Matched M (h'.newFunction c').2 := by
  have same : (h'.newFunction c').1 = (h.newFunction c).1 := by
    rw [Heap.newFunction, Heap.newFunction, matched.size]
  refine ⟨same, { matched with size := ?_, functions := fun f => ?_ }⟩
  · simp only [Heap.newFunction, Array.size_push, matched.size]
  · rw [functionAt_newFunction, functionAt_newFunction, same]
    split
    · exact closures
    · exact matched.functions f

theorem bind (f : FunctionId) (i : InstanceId) :
    (h'.bind f i).1 = (h.bind f i).1 ∧ (h.bind f i).2.Matched M (h'.bind f i).2 := by
  have method := matched.functions f
  simp only [Heap.bind, method.environment]
  obtain ⟨same, made⟩ := matched.newEnvironment
    ⟨Table.empty.insert "this" (.instance i), some (h.functionAt f).environment⟩
  exact made.newFunction { method with environment := same }

end Heap.Matched

/-! ## Runs -/

section Runs

variable {K : Pairing} {α α' β β' : Type} {Q : α → α' → Prop} {R : β → β' → Prop}

/-- From matching machines the runs end in matching machines, with related values or matching signals. -/
def Run.Matched (K : Pairing) (Q : α → α' → Prop) (run : Run α) (run' : Run α') : Prop :=
  ∀ m m', m.Matched K m' →
    match run m, run' m' with
    | .ok a n, .ok a' n' => n.Matched K n' ∧ Q a a'
    | .error signal n, .error signal' n' => n.Matched K n' ∧ signal.Matched K.matching signal'
    | _, _ => False

namespace Run.Matched

variable {run : Run α} {run' : Run α'}

theorem pure {a : α} {a' : α'} (related : Q a a') : Run.Matched K Q (pure a) (pure a') :=
  fun _ _ matched => ⟨matched, related⟩

theorem throw {signal signal' : Signal} (signals : signal.Matched K.matching signal') :
    Run.Matched K Q (throw signal) (throw signal') :=
  fun _ _ matched => ⟨matched, signals⟩

theorem fail {place place' : Occurrence} (places : K.matching.occurrences place place')
    (fault : RuntimeFault) : Run.Matched K Q (Run.fail place fault) (Run.fail place' fault) :=
  .throw (.failed ⟨rfl, places⟩)

theorem bind {f : α → Run β} {f' : α' → Run β'} (first : Run.Matched K Q run run')
    (second : ∀ a a', Q a a' → Run.Matched K R (f a) (f' a')) :
    Run.Matched K R (run >>= f) (run' >>= f') := by
  intro m m' matched
  have here := first m m' matched
  simp only [Bind.bind, EStateM.bind]
  split at here
  · next a n a' n' ends ends' =>
    rw [ends, ends']
    exact second a a' here.2 n n' here.1
  · next ends ends' =>
    rw [ends, ends']
    exact here
  · exact here.elim

theorem map {f : α → β} {f' : α' → β'} (first : Run.Matched K Q run run')
    (mapped : ∀ a a', Q a a' → R (f a) (f' a')) : Run.Matched K R (f <$> run) (f' <$> run') :=
  first.bind fun a a' related => .pure (mapped a a' related)

theorem ask {f : Heap → α} {f' : Heap → α'}
    (answers : ∀ h h', h.Matched K.matching h' → Q (f h) (f' h')) :
    Run.Matched K Q (Run.ask f) (Run.ask f') :=
  fun _ _ matched => ⟨matched, answers _ _ matched.heap⟩

theorem change {f : Heap → α × Heap} {f' : Heap → α' × Heap}
    (changes : ∀ h h', h.Matched K.matching h' →
      Q (f h).1 (f' h').1 ∧ (f h).2.Matched K.matching (f' h').2) :
    Run.Matched K Q (Run.change f) (Run.change f') :=
  fun _ _ matched => ⟨{ matched with heap := (changes _ _ matched.heap).2 },
    (changes _ _ matched.heap).1⟩

theorem current : Run.Matched K Eq Run.current Run.current :=
  fun _ _ matched => ⟨matched, matched.current.symm⟩

theorem globals : Run.Matched K Eq Run.globals Run.globals :=
  fun _ _ matched => ⟨matched, matched.globals.symm⟩

theorem distance? {o o' : Occurrence} (mentions : K.matching.occurrences o o') :
    Run.Matched K Eq (Run.distance? o) (Run.distance? o') := by
  intro m m' matched
  refine ⟨matched, ?_⟩
  rw [matched.distances, matched.distances', K.agree o o' mentions]

theorem ofInternal (result : Except InternalFault α) :
    Run.Matched K Eq (Run.ofInternal result) (Run.ofInternal result) := by
  cases result with
  | ok a => exact .pure rfl
  | error fault => exact .throw (.internal fault)

theorem ofRuntime {result result' : Except RuntimeError α}
    (results : K.matching.Results result result') :
    Run.Matched K Eq (Run.ofRuntime result) (Run.ofRuntime result') := by
  cases results with
  | ok a => exact .pure rfl
  | error error => exact .throw (.failed error)

theorem defineIn (e : EnvironmentId) (name : String) (value : Value) :
    Run.Matched K Eq (Run.defineIn e name value) (Run.defineIn e name value) :=
  .change fun _ _ matched => ⟨rfl, matched.define e name value⟩

theorem setField (i : InstanceId) (name : String) (value : Value) :
    Run.Matched K Eq (Run.change fun h => ((), h.setField i name value))
      (Run.change fun h => ((), h.setField i name value)) :=
  .change fun _ _ matched => ⟨rfl, matched.setField i name value⟩

theorem define (name : String) (value : Value) :
    Run.Matched K Eq (Run.define name value) (Run.define name value) := by
  apply current.bind
  rintro e _ rfl
  exact .defineIn e name value

theorem print (value : Value) : Run.Matched K Eq (Run.print value) (Run.print value) := by
  intro m m' matched
  refine ⟨{ matched with printed := ?_ }, rfl⟩
  simp only [matched.heap.display, matched.printed, Array.push_append]

theorem readClock : Run.Matched K Eq Run.readClock Run.readClock := by
  intro m m' matched
  refine ⟨{ matched with readings := ?_ }, ?_⟩
  · simp only [matched.readings]
  · rw [matched.clock, matched.readings]

/-! ### Control -/

theorem inEnvironment (e : EnvironmentId) (body : Run.Matched K Q run run') :
    Run.Matched K Q (Run.inEnvironment e run) (Run.inEnvironment e run') := by
  intro m m' matched
  have here := body { m with current := e } { m' with current := e } { matched with current := rfl }
  simp only [Run.inEnvironment]
  split at here
  · next ends ends' =>
    rw [ends, ends']
    exact ⟨{ here.1 with current := matched.current }, here.2⟩
  · next ends ends' =>
    rw [ends, ends']
    exact ⟨{ here.1 with current := matched.current }, here.2⟩
  · exact here.elim

theorem catchReturn (body : Run.Matched K Q run run') :
    Run.Matched K Eq (Run.catchReturn run) (Run.catchReturn run') := by
  intro m m' matched
  have here := body m m' matched
  simp only [Run.catchReturn]
  split at here
  · next ends ends' =>
    rw [ends, ends']
    exact ⟨here.1, rfl⟩
  · next ends ends' =>
    rw [ends, ends']
    obtain ⟨machines, signals⟩ := here
    cases signals with
    | returned value => exact ⟨machines, rfl⟩
    | failed error => exact ⟨machines, .failed error⟩
    | internal fault => exact ⟨machines, .internal fault⟩
    | unresolvedSuper => exact ⟨machines, .unresolvedSuper⟩
    | exhausted => exact ⟨machines, .exhausted⟩
  · exact here.elim

theorem repeatWhile {condition condition' : Run Bool} {body body' : Run Unit}
    (conditions : Run.Matched K Eq condition condition') (bodies : Run.Matched K Eq body body')
    (limit : Nat) :
    Run.Matched K Eq (Run.repeatWhile condition body limit)
      (Run.repeatWhile condition' body' limit) := by
  induction limit with
  | zero => exact .throw .exhausted
  | succ limit inductionHypothesis =>
    apply conditions.bind
    rintro again _ rfl
    cases again with
    | true => exact bodies.bind fun _ _ _ => inductionHypothesis
    | false => exact .pure rfl

end Run.Matched

/-! ### Lists -/

variable {γ γ' : Type} {S : γ → γ' → Prop} {items : List γ} {items' : List γ'}

theorem Run.Matched.forM {f : γ → Run Unit} {f' : γ' → Run Unit}
    (each : ∀ x x', S x x' → Run.Matched K Eq (f x) (f' x')) (related : List.Forall₂ S items items') :
    Run.Matched K Eq (items.forM f) (items'.forM f') := by
  induction related with
  | nil => exact .pure rfl
  | cons first _ inductionHypothesis =>
    exact (each _ _ first).bind fun _ _ _ => inductionHypothesis

theorem Run.Matched.mapM {f : γ → Run α} {f' : γ' → Run α}
    (each : ∀ x x', S x x' → Run.Matched K Eq (f x) (f' x')) (related : List.Forall₂ S items items') :
    Run.Matched K Eq (items.mapM f) (items'.mapM f') := by
  induction related with
  | nil => exact .pure rfl
  | cons first _ inductionHypothesis =>
    rw [List.mapM_cons, List.mapM_cons]
    apply (each _ _ first).bind
    rintro a _ rfl
    apply inductionHypothesis.bind
    rintro others _ rfl
    exact .pure rfl

theorem Run.Matched.foldlM {f : α → γ → Run α} {f' : α → γ' → Run α}
    (each : ∀ a x x', S x x' → Run.Matched K Eq (f a x) (f' a x'))
    (related : List.Forall₂ S items items') (a : α) :
    Run.Matched K Eq (items.foldlM f a) (items'.foldlM f' a) := by
  induction related generalizing a with
  | nil => exact .pure rfl
  | cons first _ inductionHypothesis =>
    rw [List.foldlM_cons, List.foldlM_cons]
    apply (each a _ _ first).bind
    rintro b _ rfl
    exact inductionHypothesis b

end Runs

end Lox
