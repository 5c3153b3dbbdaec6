import Lox.Proofs.Desugaring.Evaluation

/-!
# Runs that end alike

Two runs that start on one machine, and that are bridged, end alike: with the same signal, and in machines
that hold the same where the first machine had something. What runs on these next runs alike, too.
-/

namespace Lox

/-! ## Ends that are alike -/

/-- The signals are the same, up to the numbers of occurrences and the distances in a fault. -/
inductive Signal.Same : Signal → Signal → Prop where
  | failed {error error' : RuntimeError} : error.Alike error' →
      Same (.failed error) (.failed error')
  | returned (value : Value) : Same (.returned value) (.returned value)
  | internal {fault fault' : InternalFault} : fault.SameKind fault' →
      Same (.internal fault) (.internal fault')
  | unresolvedSuper : Same .unresolvedSuper .unresolvedSuper

/-- The value with which the signal comes. -/
def Signal.value? : Signal → Option Value
  | .returned value => some value
  | _ => none

/-- Machines that come from `m` hold the same, up to the environments and the texts made since. -/
structure Machine.AlikeSince (m n n' : Machine) : Prop where
  printed : n'.printed = n.printed
  clock : n'.clock = n.clock
  readings : n'.readings = n.readings
  globals : n'.globals = n.globals
  current : n'.current = n.current
  environments : ∀ e : EnvironmentId, e.index < m.heap.environments.size →
    n'.heap.environmentAt e = n.heap.environmentAt e
  functions : ∀ f : FunctionId, f.index < m.heap.functions.size →
    n'.heap.functionAt f = n.heap.functionAt f
  functionCount : n'.heap.functions.size = n.heap.functions.size
  natives : n'.heap.natives = n.heap.natives
  classes : n'.heap.classes = n.heap.classes
  instances : n'.heap.instances = n.heap.instances

namespace Run

/--
Both runs finish, or both end with the same signal. The machines are as `related` says, given the value
that is returned.
-/
inductive EndAlike (related : Option Value → Machine → Machine → Prop) :
    EStateM.Result Signal Machine Unit → EStateM.Result Signal Machine Unit → Prop where
  | ok {n n' : Machine} : related none n n' → EndAlike related (.ok () n) (.ok () n')
  | error {signal signal' : Signal} {n n' : Machine} : related signal.value? n n' →
      signal.Same signal' → EndAlike related (.error signal n) (.error signal' n')

/-- The run is exhausted. -/
def Exhausts {α : Type} (result : EStateM.Result Signal Machine α) : Prop :=
  ∃ n, result = .error .exhausted n

/-- Runs statements after a variable got the value, if there is one. -/
def executeWith (name : String) (value : Option Value) (loops depth : Nat) (ss : List Stmt) :
    Run Unit :=
  match value with
  | none => ss.forM (execute loops depth)
  | some v => do
    define name v
    ss.forM (execute loops depth)

end Run

/--
Machines that come from `m` hold the same, and statements that run on them next run alike, whatever they
do with the given value.
-/
structure Machine.Interchangeable (next : Nat) (m : Machine) (value : Option Value)
    (n n' : Machine) : Prop extends m.AlikeSince n n' where
  later : ∀ name loops depth ss, Subject.Below next (Stmt.allSubjects ss) →
    ¬Run.Exhausts (Run.executeWith name value loops depth ss n) →
      Run.EndAlike (fun _ => m.AlikeSince) (Run.executeWith name value loops depth ss n)
        (Run.executeWith name value loops depth ss n')

/-! ## From one machine -/

/-- Both heaps are one heap. -/
def Bridge.start (h : Heap) (globals : EnvironmentId) : Bridge where
  old := h.environments.size
  oldFunctions := h.functions.size
  globals
  pair e e' := e = e' ∧ e.index < h.environments.size
  defined _ _ _ := False
  bare _ := False
  bare' _ := False
  parent _ _ := False
  parent' _ _ := False
  callable f := f.index < h.functions.size
  method f := f.index < h.functions.size

section Start

variable {next : Nat} {V : Versions} {m : Machine}

theorem Bridge.start_fits {h : Heap} {globals : EnvironmentId} {v : Value} (inside : v.Inside h) :
    (Bridge.start h globals).Fits v := by
  cases v with
  | function f => exact inside
  | _ => trivial

theorem Machine.Closed.spans (closed : m.Closed next) :
    (Bridge.start m.heap m.globals).Spans m.heap m.heap where
  -- At the start each environment is its own partner.
  names := by
    rintro e _ ⟨rfl, -⟩
    rfl
  fits e _ _ name v found := Bridge.start_fits (closed.heap.names e name v found)
  inside e _ pair := pair.2
  inside' := by
    rintro e _ ⟨rfl, inside⟩
    exact inside
  unique := by
    rintro e _ o _ ⟨rfl, -⟩ ⟨rfl, -⟩
    rfl
  defined := nofun
  bare := nofun
  bare' := nofun
  parent := nofun
  parent' := nofun
  old e old := ⟨rfl, old⟩
  enclosing e _ := ⟨rfl, closed.heap.enclosing e⟩
  globals := ⟨closed.globals, closed.outermost⟩

theorem Machine.Closed.heapBridged (closed : m.Closed next)
    (agree : ∀ n, n < next → V.distances'.find? n = V.distances.find? n) :
    m.heap.Bridged V (.start m.heap m.globals) m.heap := by
  have shifts : ∀ {l : Ladder} (f : FunctionId), l.Even → f.index < m.heap.functions.size →
      ∃ r, (m.heap.functionAt f).declaration = (m.heap.functionAt f).declaration.renumber r ∧
        (m.heap.functionAt f).declaration.Shifts V r l := by
    intro l f even there
    have below := (closed.heap.closures f there).below
    exact ⟨id, (Function.renumber_id _).symm,
      Function.shifts_of_agree even _ fun n found => agree n (below n found)⟩
  -- Both heaps are one heap. Its code has old numbers only, and for these the distances agree.
  exact {
    spans := closed.spans
    natives := rfl
    classes := rfl
    instances := rfl
    functionCount := rfl
    callable := fun f there => by
      have environment := (closed.heap.closures f there).environment
      exact ⟨there, [], ⟨.outside environment, rfl, shifts f Ladder.even_nil there⟩,
        fun _ => .outside 0⟩
    method := fun f there => by
      have environment := (closed.heap.closures f there).environment
      exact ⟨there, [], .outside environment, rfl, shifts f Ladder.even_nil.cons there⟩
    old := fun f there => ⟨there, rfl⟩
    fields := fun i name v found => Bridge.start_fits (closed.heap.fields i name v found)
    methods := closed.heap.methods
    honest := closed.heap.honest }

/-- The bridge leads from the machine to the same machine with other distances. -/
theorem Machine.Closed.bridged (closed : m.Closed next) (here : V.distances = m.distances)
    (agree : ∀ n, n < next → V.distances'.find? n = V.distances.find? n) :
    m.Bridged V (.start m.heap m.globals) m.current m.current
      { m with distances := V.distances' } where
  heap := closed.heapBridged agree
  globals := rfl
  globals' := rfl
  current := rfl
  current' := rfl
  distances := here.symm
  distances' := rfl
  printed := rfl
  clock := rfl
  readings := rfl

/-! ## To machines that hold the same -/

theorem Signal.Bridged.same {W : Bridge} {signal signal' : Signal}
    (bridged : signal.Bridged W signal') : signal.Same signal' := by
  cases bridged with
  | failed alike => exact .failed alike
  | returned both =>
    obtain ⟨rfl, -⟩ := both
    exact .returned _
  | internal kind => exact .internal kind
  | unresolvedSuper => exact .unresolvedSuper

theorem Signal.Bridged.fits {W : Bridge} {signal signal' : Signal}
    (bridged : signal.Bridged W signal') : ∀ v ∈ signal.value?, W.Fits v := by
  cases bridged with
  | returned both =>
    rintro _ ⟨⟩
    exact both.fits
  | failed | internal | unresolvedSuper => exact nofun

/-- If the weaker run is not exhausted, both end alike. -/
theorem Comparison.Ends.alike {K : Comparison} {W : Bridge} {e e' : EnvironmentId}
    {result result' : EStateM.Result Signal Machine Unit}
    (ends : K.Ends W e e' Bridge.Same result result')
    (finishes : K.weaker = .left → ¬Run.Exhausts result)
    (finishes' : K.weaker = .right → ¬Run.Exhausts result')
    {related : Option Value → Machine → Machine → Prop}
    (same : ∀ (n n' : Machine) value, n.Bridged K.versions W e e' n' → (∀ v ∈ value, W.Fits v) →
      related value n n') :
    Run.EndAlike related result result' := by
  cases ends with
  | ok machines _ => exact .ok (same _ _ none machines nofun)
  | error machines signals => exact .error (same _ _ _ machines signals.fits) signals.same
  | left weaker => exact absurd ⟨_, rfl⟩ (finishes weaker)
  | right weaker => exact absurd ⟨_, rfl⟩ (finishes' weaker)

variable {W : Bridge} {n n' : Machine} (grows : (Bridge.start m.heap m.globals).Grows W)
include grows

theorem Machine.Bridged.alikeSince (machines : n.Bridged V W m.current m.current n') :
    m.AlikeSince n n' where
  printed := machines.printed
  clock := machines.clock
  readings := machines.readings
  globals := machines.globals'.trans machines.globals.symm
  current := machines.current'.trans machines.current.symm
  environments e inside := by
    have old : e.index < W.old := grows.old ▸ inside
    have names := machines.heap.spans.names e e (machines.heap.spans.old e old)
    have enclosing := (machines.heap.spans.enclosing e old).1
    change (⟨(n'.heap.environmentAt e).names, (n'.heap.environmentAt e).enclosing⟩ : Environment) = _
    rw [names, enclosing]
  functions f inside := (machines.heap.old f (grows.oldFunctions ▸ inside)).2
  functionCount := machines.heap.functionCount
  natives := machines.heap.natives
  classes := machines.heap.classes
  instances := machines.heap.instances

omit grows in
theorem Run.Bridged.executeWith {l : Ladder} (even : l.Even) {value : Option Value}
    (fits : ∀ v ∈ value, W.Fits v) (name : String) (loops depth : Nat) {ss : List Stmt}
    (agree : V.Agree (Stmt.allSubjects ss)) :
    Run.Bridged ⟨V, .left⟩ W l Bridge.Same (Run.executeWith name value loops depth ss)
      (Run.executeWith name value loops depth ss) := by
  have statements : Run.Bridged ⟨V, .left⟩ W l Bridge.Same (ss.forM (execute loops depth))
      (ss.forM (execute loops depth)) := by
    have executes := (evaluation_bridged ⟨V, .left⟩ loops (.inl ⟨rfl, Nat.le_refl depth⟩)).2
    have bridged := forM_bridged (W := W) executes ss (Stmt.allShift_of_agree even ss agree)
    rwa [Stmt.renumberAll_id] at bridged
  cases value with
  | none => exact statements
  | some v =>
    exact (Run.Bridged.define even.open name ⟨rfl, fits v rfl⟩).bind fun _ grows _ _ _ =>
      statements.later grows

theorem Machine.Bridged.interchangeable (inside : m.current.index < m.heap.environments.size)
    (agree : ∀ n, n < next → V.distances'.find? n = V.distances.find? n) {value : Option Value}
    (fits : ∀ v ∈ value, W.Fits v) (machines : n.Bridged V W m.current m.current n') :
    m.Interchangeable next value n n' where
  toAlikeSince := machines.alikeSince grows
  later := by
    intro name loops depth ss below finishes
    have bridged := Run.Bridged.executeWith Ladder.even_nil fits name loops depth
      fun n found => agree n (below n found)
    have linked : W.Linked [] m.current m.current := .outside (grows.old ▸ inside)
    obtain ⟨W', grows', ends⟩ := bridged W m.current m.current n n' (.refl W) linked machines
    exact ends.alike (fun _ => finishes) nofun fun k k' _ machines _ =>
      machines.alikeSince (grows.trans grows')

end Start

end Lox
