import Lox.Proofs.Returns.Receivers

/-!
# Steps that call no function

Such a step of a run keeps the heap orderly, yields a proper value if it yields one, and ends in no
`return`.
-/

namespace Lox

variable {α β : Type}

/-- What every step of a run does to a machine. -/
structure Machine.Leads (m m' : Machine) : Prop where
  heap : m.heap.Grows m'.heap
  globals : m'.globals = m.globals

theorem Machine.Leads.refl {m : Machine} (orderly : m.heap.Orderly) : m.Leads m :=
  ⟨⟨.refl _, orderly⟩, rfl⟩

theorem Machine.Leads.trans {m m' m'' : Machine} (first : m.Leads m') (second : m'.Leads m'') :
    m.Leads m'' :=
  ⟨⟨first.heap.extended.trans second.heap.extended, second.heap.orderly⟩,
    second.globals.trans first.globals⟩

/-- A result of a run from a machine, in which no `return` is left. -/
inductive Run.Ends (m : Machine) (Q : Heap → α → Prop) : EStateM.Result Signal Machine α → Prop
  | ok {a : α} {m' : Machine} : m.Leads m' → Q m'.heap a → Ends m Q (.ok a m')
  | error {signal : Signal} {m' : Machine} :
      m.Leads m' → (∀ v, signal ≠ .returned v) → Ends m Q (.error signal m')

/-- From an orderly machine the run leads to an orderly one, and its result is as described. -/
def Run.Keeps (m : Machine) (run : Run α) (Q : Heap → α → Prop) : Prop :=
  m.heap.Orderly → Run.Ends m Q (run m)

namespace Run.Keeps

variable {m : Machine} {Q : Heap → α → Prop} {R : Heap → β → Prop}

theorem pure {a : α} (described : Q m.heap a) : Run.Keeps m (pure a) Q :=
  fun orderly => .ok (.refl orderly) described

theorem throw {signal : Signal} (other : ∀ v, signal ≠ .returned v) :
    Run.Keeps m (throw signal) Q :=
  fun orderly => .error (.refl orderly) other

theorem fail (token : Occurrence) (fault : RuntimeFault) : Run.Keeps m (Run.fail token fault) Q :=
  throw fun _ => by simp

theorem bind {run : Run α} {f : α → Run β} (first : Run.Keeps m run Q)
    (second : ∀ a m', m.Leads m' → Q m'.heap a → Run.Keeps m' (f a) R) :
    Run.Keeps m (run >>= f) R := by
  intro orderly
  have here := first orderly
  simp only [Bind.bind, EStateM.bind]
  generalize run m = result at here
  cases here with
  | error leads other => exact .error leads other
  | ok leads described =>
    have next := second _ _ leads described leads.heap.orderly
    dsimp only
    generalize f _ _ = result at next
    cases next with
    | ok more described => exact .ok (leads.trans more) described
    | error more other => exact .error (leads.trans more) other

theorem ofRuntime {result : Except RuntimeError α}
    (described : ∀ a, result = .ok a → Q m.heap a) : Run.Keeps m (Run.ofRuntime result) Q := by
  cases result with
  | ok a => exact pure (described a rfl)
  | error error => exact throw fun _ => by simp

theorem ofInternal {result : Except InternalFault α}
    (described : ∀ a, result = .ok a → Q m.heap a) : Run.Keeps m (Run.ofInternal result) Q := by
  cases result with
  | ok a => exact pure (described a rfl)
  | error fault => exact throw fun _ => by simp

theorem ask {f : Heap → α} : Run.Keeps m (Run.ask f) fun h a => a = f h :=
  fun orderly => .ok (.refl orderly) rfl

theorem change {f : Heap → α × Heap}
    (grows : m.heap.Orderly → m.heap.Grows (f m.heap).2 ∧ Q (f m.heap).2 (f m.heap).1) :
    Run.Keeps m (Run.change f) Q :=
  fun orderly => .ok ⟨(grows orderly).1, rfl⟩ (grows orderly).2

theorem current : Run.Keeps m Run.current fun _ _ => True :=
  fun orderly => .ok (.refl orderly) trivial

theorem globals : Run.Keeps m Run.globals fun _ _ => True :=
  fun orderly => .ok (.refl orderly) trivial

theorem distance? (mention : Occurrence) :
    Run.Keeps m (Run.distance? mention) fun _ _ => True :=
  fun orderly => .ok (.refl orderly) trivial

theorem print (value : Value) : Run.Keeps m (Run.print value) fun _ _ => True :=
  fun orderly => .ok ⟨⟨.refl _, orderly⟩, rfl⟩ trivial

theorem readClock : Run.Keeps m Run.readClock fun h v => v.Proper h :=
  fun orderly => .ok ⟨⟨.refl _, orderly⟩, rfl⟩ trivial

theorem defineIn (e : EnvironmentId) {name : String} (ordinary : IsOrdinary name) {value : Value}
    (proper : value.Proper m.heap) : Run.Keeps m (Run.defineIn e name value) fun _ _ => True :=
  change fun orderly => ⟨orderly.define e ordinary proper, trivial⟩

theorem define {name : String} (ordinary : IsOrdinary name) {value : Value}
    (proper : value.Proper m.heap) : Run.Keeps m (Run.define name value) fun _ _ => True := by
  apply current.bind
  intro e m' leads _
  exact defineIn e ordinary (leads.heap.extended.proper proper)

theorem setField (i : InstanceId) (name : String) {value : Value}
    (proper : value.Proper m.heap) :
    Run.Keeps m (Run.change fun h => ((), h.setField i name value)) fun _ _ => True :=
  change fun orderly => ⟨orderly.setField i name proper, trivial⟩

theorem newFunction {c : Closure} (permitted : c.Permitted) :
    Run.Keeps m (Run.change (·.newFunction c)) fun h f =>
      m.heap.Bound c → (Value.function f).Proper h :=
  change fun orderly => ⟨orderly.newFunction permitted, Heap.Orderly.proper_newFunction⟩

theorem newEnvironment {env : Environment} (proper : env.names.Proper m.heap) :
    Run.Keeps m (Run.change (·.newEnvironment env)) fun _ _ => True :=
  change fun orderly => ⟨orderly.newEnvironment proper, trivial⟩

theorem bindMethod (f : FunctionId) (i : InstanceId) :
    Run.Keeps m (Run.change (·.bind f i)) fun h bound => (Value.function bound).Proper h :=
  change fun orderly => orderly.bind f i

theorem foldlM {γ : Type} {f : β → γ → Run β} (items : List γ)
    (each : ∀ b, ∀ item ∈ items, ∀ m', m.Leads m' → Run.Keeps m' (f b item) fun _ _ => True)
    (b : β) : Run.Keeps m (items.foldlM f b) fun _ _ => True := by
  induction items generalizing b m with
  | nil => exact pure trivial
  | cons item rest inductionHypothesis =>
    intro orderly
    refine bind (each b item (List.mem_cons_self ..) m (.refl orderly)) ?_ orderly
    intro b' m' leads _
    apply inductionHypothesis
    intro b'' item' member m'' more
    exact each b'' item' (List.mem_cons_of_mem _ member) m'' (leads.trans more)

end Run.Keeps

namespace Run

variable {m : Machine}

/-! ## Names -/

theorem lookUp_keeps (mention : Occurrence) :
    Run.Keeps m (lookUp mention) fun h v => v.Proper h := by
  apply (Keeps.distance? mention).bind
  intro distance m' _ _
  cases distance with
  | none =>
    apply Keeps.globals.bind
    intro e m' _ _
    apply Keeps.ask.bind
    rintro _ m' leads rfl
    exact .ofRuntime fun v => leads.heap.orderly.lookUp
  | some distance =>
    apply Keeps.current.bind
    intro e m' _ _
    apply Keeps.ask.bind
    rintro _ m' leads rfl
    exact .ofInternal fun v => leads.heap.orderly.lookUpAt

theorem assign_keeps {mention : Occurrence} (ordinary : IsOrdinary mention.name) {value : Value}
    (proper : value.Proper m.heap) : Run.Keeps m (assign mention value) fun _ _ => True := by
  apply (Keeps.distance? mention).bind
  intro distance m₁ leads _
  have proper := leads.heap.extended.proper proper
  cases distance with
  | none =>
    apply Keeps.globals.bind
    intro e m₂ leads _
    have proper := leads.heap.extended.proper proper
    apply Keeps.ask.bind
    rintro _ m₃ leads rfl
    have proper := leads.heap.extended.proper proper
    apply (Keeps.ofRuntime (Q := fun _ _ => True) fun _ _ => trivial).bind
    intro holder m₄ leads _
    exact .defineIn holder ordinary (leads.heap.extended.proper proper)
  | some distance =>
    apply Keeps.current.bind
    intro e m₂ leads _
    have proper := leads.heap.extended.proper proper
    apply Keeps.ask.bind
    rintro _ m₃ leads rfl
    have proper := leads.heap.extended.proper proper
    apply (Keeps.ofInternal (Q := fun _ _ => True) fun _ _ => trivial).bind
    intro holder m₄ leads _
    exact .defineIn holder ordinary (leads.heap.extended.proper proper)

/-! ## Natives and properties -/

/-- The only native function of a session is the clock. -/
theorem callNative_keeps (n : NativeId) (arguments : List Value) :
    Run.Keeps m (callNative n arguments) fun h v => v.Proper h := by
  apply Keeps.ask.bind
  rintro _ m' leads rfl
  rw [leads.heap.orderly.natives n]
  exact .readClock

theorem property_keeps (object : Value) (key : Occurrence) :
    Run.Keeps m (property object key) fun h v => v.Proper h := by
  cases object with
  | «instance» i =>
    apply Keeps.ask.bind
    rintro _ m₁ leads rfl
    apply (Keeps.ofRuntime (Q := fun h member => ∀ v, member = .field v → v.Proper h) ?_).bind
    · intro member m₂ _ fields
      cases member with
      | field value => exact .pure (fields value rfl)
      | method f =>
        apply (Keeps.bindMethod f i).bind
        intro bound m₃ _ proper
        exact .pure proper
    · rintro _ found v rfl
      exact leads.heap.orderly.member found
  | _ => exact .fail key _

theorem superMethod_keeps (keyword : Occurrence) (method : Occurrence) :
    Run.Keeps m (superMethod keyword method) fun h v => v.Proper h := by
  apply (Keeps.distance? keyword).bind
  intro distance m' _ _
  cases distance with
  | none => exact .throw fun _ => by simp
  | some distance =>
    apply Keeps.current.bind
    intro e m' _ _
    apply Keeps.ask.bind
    intro found m' _ _
    apply (Keeps.ofInternal (Q := fun _ _ => True) fun _ _ => trivial).bind
    intro superclass m' _ _
    apply Keeps.ask.bind
    intro found m' _ _
    apply (Keeps.ofInternal (Q := fun _ _ => True) fun _ _ => trivial).bind
    intro object m' _ _
    split
    -- Both values are what the scopes promise; for any others the run ends.
    · apply Keeps.ask.bind
      intro found m' _ _
      cases found with
      | none => exact .fail method _
      | some f =>
        apply (Keeps.bindMethod f _).bind
        intro bound m' _ proper
        exact .pure proper
    · exact .throw fun _ => by simp

/-! ## Declarations -/

theorem declareFunction_keeps {f : Function} (ordinary : IsOrdinary f.name.lexeme)
    (permitted : f.Permitted .function) :
    Run.Keeps m (declareFunction f) fun _ _ => True := by
  apply Keeps.current.bind
  intro e m' _ _
  apply (Keeps.newFunction (c := ⟨f, e, false⟩) ⟨_, by simp, by simp, permitted⟩).bind
  intro made m'' _ proper
  exact .define ordinary (proper (by simp [Heap.Bound]))

/-- A method that the resolver takes for an initializer is one at run time. -/
theorem methodTable_keeps (e : EnvironmentId) {methods : List Function}
    (permitted : ∀ f ∈ methods, f.Permitted f.methodContext) :
    Run.Keeps m (methodTable e methods) fun _ _ => True := by
  apply Keeps.foldlM
  intro table method member m' _
  have kind : Closure.Permitted ⟨method, e, method.isInitializer⟩ := by
    refine ⟨method.methodContext, ?_, ?_, permitted method member⟩
    · rw [Function.methodContext]
      split <;> simp
    · intro initializer
      exact if_pos initializer
  apply (Keeps.newFunction kind).bind
  intro made m'' _ _
  exact .pure trivial

theorem superclassOf_keeps (mention : Occurrence) :
    Run.Keeps m (superclassOf mention) fun _ _ => True := by
  apply (lookUp_keeps mention).bind
  intro value m' _ _
  cases value with
  | «class» c => exact .pure trivial
  | _ => exact .fail mention _

theorem declareClass_keeps {name : Occurrence} (ordinary : IsOrdinary name.name)
    (superclass : Option Occurrence) {methods : List Function}
    (permitted : ∀ f ∈ methods, f.Permitted f.methodContext) :
    Run.Keeps m (declareClass name superclass methods) fun _ _ => True := by
  have parent : Run.Keeps m (superclass.mapM superclassOf) fun _ _ => True := by
    cases superclass with
    | none => exact .pure trivial
    | some mention =>
      apply (superclassOf_keeps mention).bind
      intro c m' _ _
      exact .pure trivial
  apply parent.bind
  intro parent m' _ _
  have proper : Value.nil.Proper m'.heap := trivial
  apply (Keeps.define ordinary proper).bind
  intro _ m' _ _
  apply Keeps.current.bind
  intro e m' _ _
  -- what follows is the same for each environment that the methods close over
  have rest : ∀ inner m', Run.Keeps m'
      (do
        let table ← methodTable inner methods
        let c ← change (·.newClass ⟨name.name, parent, table⟩)
        let holder ← ofRuntime (← ask (·.holder e name))
        defineIn holder name.name (.class c)) fun _ _ => True := by
    intro inner m'
    apply (methodTable_keeps inner permitted).bind
    intro table m' _ _
    apply (Keeps.change (Q := fun _ _ => True) fun orderly => ⟨orderly.newClass _, trivial⟩).bind
    intro c m' _ _
    apply Keeps.ask.bind
    intro found m' _ _
    apply (Keeps.ofRuntime (Q := fun _ _ => True) fun _ _ => trivial).bind
    intro holder m' _ _
    exact .defineIn holder ordinary trivial
  cases parent with
  | none => exact rest e m'
  | some c =>
    have holdsParent : (Table.empty.insert "super" (Value.class c)).Proper m'.heap :=
      Table.Proper.empty.insert "super" trivial
    apply (Keeps.newEnvironment holdsParent).bind
    intro inner m' _ _
    exact rest inner m'

end Run

end Lox
