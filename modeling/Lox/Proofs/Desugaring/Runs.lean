import Lox.Proofs.Desugaring.Objects
import Lox.Proofs.Evaluation.Handles

/-!
# Runs on both sides of a bridge

`Run.Bridged` runs take bridged machines to bridged machines, with related values or with signals that
mean the same. One of the two runs may be exhausted before the other one is; which one that is, is part
of the comparison.
-/

namespace Lox

/-! ## Machines -/

/-- The machines are bridged, and their current environments are `e` and `e'`. -/
structure Machine.Bridged (V : Versions) (W : Bridge) (e e' : EnvironmentId) (m m' : Machine) :
    Prop where
  heap : m.heap.Bridged V W m'.heap
  globals : m.globals = W.globals
  globals' : m'.globals = W.globals
  current : m.current = e
  current' : m'.current = e'
  distances : m.distances = V.distances
  distances' : m'.distances = V.distances'
  printed : m'.printed = m.printed
  clock : m'.clock = m.clock
  readings : m'.readings = m.readings

/-- Only the heap and the bridge have changed. -/
theorem Machine.Bridged.withHeap {V : Versions} {W W' : Bridge} {e e' : EnvironmentId}
    {m m' : Machine} (machines : m.Bridged V W e e' m') (grows : W.Grows W') {h h' : Heap}
    (heaps : h.Bridged V W' h') :
    ({ m with heap := h } : Machine).Bridged V W' e e' { m' with heap := h' } :=
  { machines with
    heap := heaps
    globals := machines.globals.trans grows.globals.symm
    globals' := machines.globals'.trans grows.globals.symm }

theorem Machine.Bridged.enterLeft {V : Versions} {W : Bridge} {e e' : EnvironmentId}
    {m m' : Machine} (machines : m.Bridged V W e e' m') (i : EnvironmentId) :
    ({ m with current := i } : Machine).Bridged V W i e' m' :=
  { machines with current := rfl }

theorem Machine.Bridged.enterRight {V : Versions} {W : Bridge} {e e' : EnvironmentId}
    {m m' : Machine} (machines : m.Bridged V W e e' m') (i' : EnvironmentId) :
    m.Bridged V W e i' { m' with current := i' } :=
  { machines with current' := rfl }

/-- The signals tell a program the same. -/
inductive Signal.Bridged (W : Bridge) : Signal → Signal → Prop where
  | failed {error error' : RuntimeError} : error.Alike error' →
      Bridged W (.failed error) (.failed error')
  | returned {v v' : Value} : W.Both v v' → Bridged W (.returned v) (.returned v')
  | internal {fault fault' : InternalFault} : fault.SameKind fault' →
      Bridged W (.internal fault) (.internal fault')
  | unresolvedSuper : Bridged W .unresolvedSuper .unresolvedSuper

/-! ## Comparisons -/

inductive Side where
  | left
  | right

/-- How two runs are compared. -/
structure Comparison where
  versions : Versions
  /-- The run that may be exhausted while the other one goes on. -/
  weaker : Side

/-- The stronger run may nest as deeply as the weaker one; the first run, `extra` levels deeper. -/
def Comparison.Allows (K : Comparison) (extra depth depth' : Nat) : Prop :=
  (K.weaker = .left ∧ depth ≤ depth') ∨ (K.weaker = .right ∧ depth' + extra ≤ depth)

section Runs

variable {K : Comparison} {W : Bridge} {l : Ladder} {α α' β β' : Type}
  {Q : Bridge → α → α' → Prop} {R : Bridge → β → β' → Prop}

/-- The results mean the same, in machines that are bridged by `W`. -/
inductive Comparison.Ends (K : Comparison) (W : Bridge) (e e' : EnvironmentId)
    (Q : Bridge → α → α' → Prop) :
    EStateM.Result Signal Machine α → EStateM.Result Signal Machine α' → Prop where
  | ok {a : α} {a' : α'} {n n' : Machine} : n.Bridged K.versions W e e' n' → Q W a a' →
      Ends K W e e' Q (.ok a n) (.ok a' n')
  | error {signal signal' : Signal} {n n' : Machine} : n.Bridged K.versions W e e' n' →
      signal.Bridged W signal' → Ends K W e e' Q (.error signal n) (.error signal' n')
  | left {n : Machine} {result' : EStateM.Result Signal Machine α'} : K.weaker = .left →
      Ends K W e e' Q (.error .exhausted n) result'
  | right {n' : Machine} {result : EStateM.Result Signal Machine α} : K.weaker = .right →
      Ends K W e e' Q result (.error .exhausted n')

/-- The first run comes back from environment `i`. -/
theorem Comparison.Ends.backLeft {i e e' : EnvironmentId} {m : Machine} {run : Run α}
    {result' : EStateM.Result Signal Machine α'}
    (ends : K.Ends W i e' Q (run { m with current := i }) result') (back : m.current = e) :
    K.Ends W e e' Q (Run.inEnvironment i run m) result' := by
  simp only [Run.inEnvironment]
  generalize run { m with current := i } = result at ends
  cases ends with
  | ok machines related => exact .ok { machines with current := back } related
  | error machines signals => exact .error { machines with current := back } signals
  | left weaker => exact .left weaker
  | right weaker => exact .right weaker

/-- The second run comes back from environment `i'`. -/
theorem Comparison.Ends.backRight {i' e e' : EnvironmentId} {m' : Machine} {run' : Run α'}
    {result : EStateM.Result Signal Machine α}
    (ends : K.Ends W e i' Q result (run' { m' with current := i' })) (back : m'.current = e') :
    K.Ends W e e' Q result (Run.inEnvironment i' run' m') := by
  simp only [Run.inEnvironment]
  generalize run' { m' with current := i' } = result' at ends
  cases ends with
  | ok machines related => exact .ok { machines with current' := back } related
  | error machines signals => exact .error { machines with current' := back } signals
  | left weaker => exact .left weaker
  | right weaker => exact .right weaker

/-- From environments that are linked along `l` the runs end in results that mean the same. -/
def Run.Bridged (K : Comparison) (W : Bridge) (l : Ladder) (Q : Bridge → α → α' → Prop)
    (run : Run α) (run' : Run α') : Prop :=
  ∀ W₁ e e' m m', W.Grows W₁ → W₁.Linked l e e' → m.Bridged K.versions W₁ e e' m' →
    ∃ W₂, W₁.Grows W₂ ∧ K.Ends W₂ e e' Q (run m) (run' m')

/-- Both runs yield the same, whatever the bridge. -/
def Bridge.Same (_ : Bridge) (a a' : α) : Prop := a = a'

namespace Run.Bridged

variable {run : Run α} {run' : Run α'}

theorem later {W' : Bridge} (grows : W.Grows W') (bridged : Run.Bridged K W l Q run run') :
    Run.Bridged K W' l Q run run' :=
  fun W₁ e e' m m' further => bridged W₁ e e' m m' (grows.trans further)

/-! ### Signals and sequences -/

theorem pure {a : α} {a' : α'} (related : ∀ W₁, W.Grows W₁ → Q W₁ a a') :
    Run.Bridged K W l Q (pure a) (pure a') :=
  fun W₁ _ _ _ _ grows _ machines => ⟨W₁, .refl W₁, .ok machines (related W₁ grows)⟩

theorem throw {signal signal' : Signal} (signals : ∀ W₁, W.Grows W₁ → signal.Bridged W₁ signal') :
    Run.Bridged K W l Q (throw signal) (throw signal') :=
  fun W₁ _ _ _ _ grows _ machines => ⟨W₁, .refl W₁, .error machines (signals W₁ grows)⟩

theorem fail {place place' : Occurrence} (same : place'.token = place.token)
    (fault : RuntimeFault) :
    Run.Bridged K W l Q (Run.fail place fault) (Run.fail place' fault) :=
  .throw fun _ _ => .failed ⟨rfl, same⟩

theorem spentLeft (weaker : K.weaker = .left) : Run.Bridged K W l Q (throwThe Signal .exhausted) run' :=
  fun W₁ _ _ _ _ _ _ _ => ⟨W₁, .refl W₁, .left weaker⟩

theorem spentRight (weaker : K.weaker = .right) :
    Run.Bridged K W l Q run (throwThe Signal .exhausted) :=
  fun W₁ _ _ _ _ _ _ _ => ⟨W₁, .refl W₁, .right weaker⟩

theorem exhausted : Run.Bridged K W l Q (throwThe Signal .exhausted) (throwThe Signal .exhausted) := by
  cases weaker : K.weaker with
  | left => exact .spentLeft weaker
  | right => exact .spentRight weaker

theorem bind {f : α → Run β} {f' : α' → Run β'} (first : Run.Bridged K W l Q run run')
    (second : ∀ W₁, W.Grows W₁ → ∀ a a', Q W₁ a a' → Run.Bridged K W₁ l R (f a) (f' a')) :
    Run.Bridged K W l R (run >>= f) (run' >>= f') := by
  intro W₁ e e' m m' grows linked machines
  obtain ⟨W₂, grows₂, ends⟩ := first W₁ e e' m m' grows linked machines
  simp only [Bind.bind, EStateM.bind]
  generalize run m = result, run' m' = result' at ends
  cases ends with
  | ok machines related =>
    obtain ⟨W₃, grows₃, ends⟩ := second W₂ (grows.trans grows₂) _ _ related W₂ e e' _ _ (.refl W₂)
      (linked.mono grows₂) machines
    exact ⟨W₃, grows₂.trans grows₃, ends⟩
  | error machines signals => exact ⟨W₂, grows₂, .error machines signals⟩
  | left weaker => exact ⟨W₂, grows₂, .left weaker⟩
  | right weaker =>
    refine ⟨W₂, grows₂, ?_⟩
    cases result with
    | error => exact .right weaker
    | ok => exact .right weaker

theorem map {f : α → β} {f' : α' → β'} (first : Run.Bridged K W l Q run run')
    (mapped : ∀ W₁ a a', Q W₁ a a' → ∀ W₂, W₁.Grows W₂ → R W₂ (f a) (f' a')) :
    Run.Bridged K W l R (f <$> run) (f' <$> run') :=
  first.bind fun W₁ _ a a' related => .pure (mapped W₁ a a' related)

/-! ### The heap -/

theorem ask {f : Heap → α} {f' : Heap → α'}
    (answers : ∀ W₁, W.Grows W₁ → ∀ h h', h.Bridged K.versions W₁ h' → Q W₁ (f h) (f' h')) :
    Run.Bridged K W l Q (Run.ask f) (Run.ask f') :=
  fun W₁ _ _ m m' grows _ machines =>
    ⟨W₁, .refl W₁, .ok machines (answers W₁ grows m.heap m'.heap machines.heap)⟩

theorem change {f : Heap → α × Heap} {f' : Heap → α' × Heap}
    (changes : ∀ W₁, W.Grows W₁ → ∀ h h', h.Bridged K.versions W₁ h' →
      ∃ W₂, W₁.Grows W₂ ∧ (f h).2.Bridged K.versions W₂ (f' h').2 ∧ Q W₂ (f h).1 (f' h').1) :
    Run.Bridged K W l Q (Run.change f) (Run.change f') := by
  intro W₁ e e' m m' grows _ machines
  obtain ⟨W₂, grows₂, heaps, related⟩ := changes W₁ grows m.heap m'.heap machines.heap
  exact ⟨W₂, grows₂, .ok (machines.withHeap grows₂ heaps) related⟩

theorem defineIn {o o' : EnvironmentId} (pair : W.pair o o') (name : String) {v v' : Value}
    (both : W.Both v v') :
    Run.Bridged K W l Bridge.Same (Run.defineIn o name v) (Run.defineIn o' name v') := by
  obtain ⟨rfl, fits⟩ := both
  exact .change fun W₁ grows h h' heaps =>
    ⟨W₁, .refl W₁, heaps.define (grows.pair _ _ pair) name (fits.mono grows), rfl⟩

/-! ### The machine -/

theorem current :
    Run.Bridged K W l (fun W e e' => W.Linked l e e') Run.current Run.current := by
  intro W₁ e e' m m' _ linked machines
  refine ⟨W₁, .refl W₁, .ok machines ?_⟩
  rwa [machines.current, machines.current']

theorem globals :
    Run.Bridged K W l (fun W e e' => e = W.globals ∧ e' = W.globals) Run.globals Run.globals :=
  fun W₁ _ _ _ _ _ _ machines =>
    ⟨W₁, .refl W₁, .ok machines ⟨machines.globals, machines.globals'⟩⟩

theorem define (isOpen : l.Open) (name : String) {v v' : Value} (both : W.Both v v') :
    Run.Bridged K W l Bridge.Same (Run.define name v) (Run.define name v') := by
  apply current.bind
  -- which environments correspond is known only where the heaps are
  intro W₁ grows e e' linked W₂ i i' m m' grows₂ inside machines
  have pair := machines.heap.spans.pair_of_open (linked.mono grows₂) isOpen
  exact defineIn pair name (both.mono (grows.trans grows₂)) W₂ i i' m m' (.refl W₂) inside machines

/-- Once a name is defined, it is known to be in the current environments. -/
theorem declare (isOpen : l.Open) (name : String) {v v' : Value} (both : W.Both v v')
    {f : EnvironmentId → Run β} {f' : EnvironmentId → Run β'}
    (rest : ∀ W₁, W.Grows W₁ → ∀ e e', W₁.Linked l e e' → W₁.defined e e' name →
      Run.Bridged K W₁ l R (f e) (f' e')) :
    Run.Bridged K W l R (Run.define name v >>= fun _ => Run.current >>= f)
      (Run.define name v' >>= fun _ => Run.current >>= f') := by
  obtain ⟨rfl, fits⟩ := both
  intro W₁ e e' m m' grows linked machines
  have pair := machines.heap.spans.pair_of_open linked isOpen
  obtain ⟨W₂, grows₂, heaps, known⟩ := machines.heap.declare pair name (fits.mono grows)
  obtain ⟨W₃, grows₃, ends⟩ := rest W₂ (grows.trans grows₂) e e' (linked.mono grows₂) known W₂ e e'
    _ _ (.refl W₂) (linked.mono grows₂) (machines.withHeap grows₂ heaps)
  obtain rfl := machines.current
  obtain rfl := machines.current'
  exact ⟨W₃, grows₂.trans grows₃, ends⟩

theorem distance? {r : Nat → Nat} {related : Nat → Nat → Prop} {o : Occurrence}
    (shifts : o.Shifts K.versions r related) :
    Run.Bridged K W l (fun _ => Option.Rel related) (Run.distance? o)
      (Run.distance? (o.renumber r)) := by
  intro W₁ e e' m m' _ _ machines
  refine ⟨W₁, .refl W₁, .ok machines ?_⟩
  rw [machines.distances, machines.distances']
  exact shifts

theorem ofInternal {related : α → α' → Prop} {result : Except InternalFault α}
    {result' : Except InternalFault α'}
    (answers : Answers InternalFault.SameKind related result result')
    (described : ∀ W₁, W.Grows W₁ → ∀ a a', related a a' → Q W₁ a a') :
    Run.Bridged K W l Q (Run.ofInternal result) (Run.ofInternal result') := by
  cases answers with
  | ok here => exact .pure fun W₁ grows => described W₁ grows _ _ here
  | error kind => exact .throw fun _ _ => .internal kind

theorem ofRuntime {related : α → α' → Prop} {result : Except RuntimeError α}
    {result' : Except RuntimeError α'} (answers : Answers RuntimeError.Alike related result result')
    (described : ∀ W₁, W.Grows W₁ → ∀ a a', related a a' → Q W₁ a a') :
    Run.Bridged K W l Q (Run.ofRuntime result) (Run.ofRuntime result') := by
  cases answers with
  | ok here => exact .pure fun W₁ grows => described W₁ grows _ _ here
  | error alike => exact .throw fun _ _ => .failed alike

theorem print {v v' : Value} (both : W.Both v v') :
    Run.Bridged K W l Bridge.Same (Run.print v) (Run.print v') := by
  obtain ⟨rfl, fits⟩ := both
  intro W₁ e e' m m' grows _ machines
  refine ⟨W₁, .refl W₁, .ok { machines with printed := ?_ } rfl⟩
  simp only [machines.heap.display (fits.mono grows), machines.printed]

theorem readClock : Run.Bridged K W l Bridge.Both Run.readClock Run.readClock := by
  intro W₁ e e' m m' _ _ machines
  refine ⟨W₁, .refl W₁, .ok { machines with readings := ?_ } ⟨?_, trivial⟩⟩
  · simp only [machines.readings]
  · rw [machines.clock, machines.readings]

/-! ### Control -/

theorem inEnvironment {inner : Ladder} {i i' : EnvironmentId} (inside : W.Linked inner i i')
    (body : Run.Bridged K W inner Q run run') :
    Run.Bridged K W l Q (Run.inEnvironment i run) (Run.inEnvironment i' run') := by
  intro W₁ e e' m m' grows _ machines
  obtain ⟨W₂, grows₂, ends⟩ := body W₁ i i' _ _ grows (inside.mono grows)
    ((machines.enterLeft i).enterRight i')
  exact ⟨W₂, grows₂, (ends.backLeft machines.current).backRight machines.current'⟩

theorem catchReturn (body : Run.Bridged K W l Q run run') :
    Run.Bridged K W l Bridge.Both (Run.catchReturn run) (Run.catchReturn run') := by
  intro W₁ e e' m m' grows linked machines
  obtain ⟨W₂, grows₂, ends⟩ := body W₁ e e' m m' grows linked machines
  refine ⟨W₂, grows₂, ?_⟩
  simp only [Run.catchReturn]
  generalize run m = result, run' m' = result' at ends
  cases ends with
  | ok machines _ => exact .ok machines ⟨rfl, trivial⟩
  | error machines signals =>
    cases signals with
    | returned both => exact .ok machines both
    | failed alike => exact .error machines (.failed alike)
    | internal kind => exact .error machines (.internal kind)
    | unresolvedSuper => exact .error machines .unresolvedSuper
  | left weaker => exact .left weaker
  | right weaker => exact .right weaker

theorem repeatWhile {condition condition' : Run Bool} {body body' : Run Unit}
    (conditions : Run.Bridged K W l Bridge.Same condition condition')
    (bodies : Run.Bridged K W l Bridge.Same body body') (limit : Nat) :
    Run.Bridged K W l Bridge.Same (Run.repeatWhile condition body limit)
      (Run.repeatWhile condition' body' limit) := by
  induction limit generalizing W with
  | zero => exact .exhausted
  | succ limit inductionHypothesis =>
    apply conditions.bind
    rintro W₁ grows again _ rfl
    cases again with
    | true =>
      apply (bodies.later grows).bind
      intro W₂ grows₂ _ _ _
      have further := grows.trans grows₂
      exact inductionHypothesis (conditions.later further) (bodies.later further)
    | false => exact .pure fun _ _ => rfl

end Run.Bridged

/-! ### New scopes -/

/-- Runs in a new environment inside the current one. -/
def Run.inScope (run : Run α) : Run α := do
  let outer ← current
  let e ← change (·.newEnvironment ⟨.empty, some outer⟩)
  inEnvironment e run

namespace Run.Bridged

variable {run : Run α} {run' : Run α'}

theorem inScope (body : ∀ W₁, W.Grows W₁ → Run.Bridged K W₁ (.common :: l) Q run run') :
    Run.Bridged K W l Q (Run.inScope run) (Run.inScope run') := by
  apply current.bind
  intro W₁ grows₁ outer outer' linked
  have made : Run.Bridged K W₁ l (fun W e e' => W.Linked (.common :: l) e e')
      (Run.change (·.newEnvironment ⟨.empty, some outer⟩))
      (Run.change (·.newEnvironment ⟨.empty, some outer'⟩)) :=
    .change fun W₂ grows₂ h h' heaps => heaps.newPair (linked.mono grows₂) .empty
  apply made.bind
  intro W₂ grows₂ e e' inside
  exact .inEnvironment inside (body W₂ (grows₁.trans grows₂))

/-- Only the first run opens a scope. -/
theorem inScopeLeft (body : ∀ W₁, W.Grows W₁ → Run.Bridged K W₁ (.left :: l) Q run run') :
    Run.Bridged K W l Q (Run.inScope run) run' := by
  intro W₁ e e' m m' grows linked machines
  obtain ⟨W₂, grows₂, heaps, inside⟩ := machines.heap.newLeft (machines.current ▸ linked)
  obtain ⟨W₃, grows₃, ends⟩ := body W₂ (grows.trans grows₂) W₂ _ e' _ m' (.refl W₂) inside
    ((machines.withHeap grows₂ heaps).enterLeft _)
  exact ⟨W₃, grows₂.trans grows₃, ends.backLeft machines.current⟩

/-- Only the second run opens a scope. -/
theorem inScopeRight (body : ∀ W₁, W.Grows W₁ → Run.Bridged K W₁ (.right :: l) Q run run') :
    Run.Bridged K W l Q run (Run.inScope run') := by
  intro W₁ e e' m m' grows linked machines
  obtain ⟨W₂, grows₂, heaps, inside⟩ := machines.heap.newRight (machines.current' ▸ linked)
  obtain ⟨W₃, grows₃, ends⟩ := body W₂ (grows.trans grows₂) W₂ e _ m _ (.refl W₂) inside
    ((machines.withHeap grows₂ heaps).enterRight _)
  exact ⟨W₃, grows₂.trans grows₃, ends.backRight machines.current'⟩

end Run.Bridged

end Runs

end Lox
