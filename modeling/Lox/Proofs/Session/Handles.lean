import Lox.Proofs.Evaluation.Handles
import Lox.Proofs.Session.Chronicle

/-!
# Machines of sessions

No handle dangles in the machine of a session, and no number of a token to come is in use. So an accepted
program starts on a machine that is ready for it, and the machine stays ready while the program runs.
-/

namespace Lox

/-! ## Larger bounds -/

theorem Heap.Closed.mono {next next' : Nat} (le : next ≤ next') {h : Heap} (closed : h.Closed next) :
    h.Closed next' :=
  { closed with
    closures := fun f there =>
      let inside := closed.closures f there
      { inside with below := fun n found => Nat.lt_of_lt_of_le (inside.below n found) le } }

/-! ## Machines for a program -/

/-- No handle dangles, and the occurrences of the program have the distances from their places. -/
structure Machine.Ready (next : Nat) (program : Program) (m : Machine) : Prop where
  closed : m.Closed next
  resolved : ∀ v ∈ programVisits program, m.distances.At v

/-- Whatever runs on the machine leaves it ready. -/
theorem Machine.Ready.execute {next : Nat} {program : Program} {m : Machine}
    (ready : m.Ready next program) {s : Stmt} (below : Subject.Below next s.subjects)
    (loops depth : Nat) :
    match execute loops depth s m with
    | .ok _ n => n.Ready next program
    | .error _ n => n.Ready next program := by
  have lands := (evaluation_safe next loops depth).2 m s below ready.closed
  generalize Lox.execute loops depth s m = result at lands
  cases lands with
  | ok turns _ | error turns _ => exact ⟨turns.closed, turns.distances ▸ ready.resolved⟩

theorem Program.Accepted.below {first last : Nat} {program : Program}
    (accepted : program.Accepted first last) : Subject.Below last (Stmt.allSubjects program) :=
  fun n found => (accepted.read.bounds n found).2

/-- The run of a program leaves a closed machine closed. -/
theorem Machine.Closed.interpret {next : Nat} {m : Machine} (closed : m.Closed next)
    {program : Program} (below : Subject.Below next (Stmt.allSubjects program)) (loops depth : Nat) :
    (interpret loops depth program m).2.Closed next := by
  have safe : Run.Safe next m (program.forM (execute loops depth)) fun _ _ => True :=
    .forM program fun s member m' =>
      (evaluation_safe next loops depth).2 m' s (Stmt.below_of_mem below s member)
  have lands := safe closed
  rw [Lox.interpret]
  generalize program.forM (execute loops depth) m = result at lands
  cases lands with
  | ok turns _ => exact turns.closed
  | error turns _ => exact turns.closed

/-! ## Every history -/

theorem Heap.empty_closed : Heap.empty.Closed 0 where
  enclosing _ := nofun
  names _ := .empty
  fields _ := .empty
  methods _ _ _ := nofun
  closures f there := absurd there (Nat.not_lt_zero f.index)
  honest _ := trivial

theorem Heap.Closed.newNative {next : Nat} {h : Heap} (closed : h.Closed next) {n : Native}
    (honest : n.body.Honest) : (h.newNative n).2.Closed next := by
  have within : h.Within (h.newNative n).2 := ⟨Nat.le_refl _, Nat.le_refl _, fun _ _ => rfl⟩
  refine within.closed closed.enclosing closed.names closed.fields closed.methods closed.closures ?_
  intro other
  rw [Heap.nativeAt_newNative]
  split
  · exact honest
  · exact closed.honest other

namespace Session

theorem initial_closed (clock : Nat → Float) : (initial clock).machine.Closed 0 where
  heap := by
    have globals := (Heap.empty_closed.newEnvironment ⟨.empty, none⟩ .empty nofun).2.1
    have native := globals.newNative (n := ⟨"clock", 0, .clock⟩) trivial
    exact (native.define ⟨0⟩ "clock" (v := .native ⟨0⟩) trivial).2
  current := Nat.one_pos
  globals := Nat.one_pos
  outermost := rfl
  fresh n _ := Distances.find?_empty n

variable {s : Session} (closed : s.machine.Closed s.nextToken)
include closed

theorem define_closed (name : String) {value : Value} (scalar : value.IsScalar) :
    (s.define name value).machine.Closed s.nextToken := by
  obtain ⟨within, heap⟩ := closed.heap.define s.machine.globals name scalar.inside
  exact (closed.withHeap within heap).closed

/-- An accepted program starts on a closed machine. -/
theorem start_closed {program : Program} {last : Nat} (accepted : program.Accepted s.nextToken last)
    (le : s.nextToken ≤ last) : (s.start program).Closed last :=
  { heap := closed.heap.mono le
    current := closed.current
    globals := closed.globals
    outermost := closed.outermost
    fresh := fun n above =>
      (accepted.distance_outside (.inr above)).trans (closed.fresh n (Nat.le_trans le above)) }

omit closed in
theorem closed_invariant : Invariant fun s => s.machine.Closed s.nextToken where
  define closed name _ scalar := define_closed closed name scalar
  run closed limits _ _ accepted :=
    have read := accepted?_sound accepted
    have started := start_closed closed read (Nat.le_add_right _ _)
    { started.interpret read.below limits.loops limits.depth with }

omit closed in
theorem after_closed (clock : Nat → Float) (steps : List Step) :
    (after clock steps).machine.Closed (after clock steps).nextToken :=
  closed_invariant.after (initial_closed clock) steps

end Session

/--
After any history an accepted program starts on a machine that is ready for it and for all programs that
were accepted before. What they declared may still run.
-/
theorem TracedSession.start_ready (clock : Nat → Float) (steps : List Session.Step) (limits : Limits)
    {source : String} {program : Program} :
    let s := after clock steps
    s.session.accepted? limits source = some program → ∀ known ∈ program :: s.programs,
      (s.session.start program).Ready (s.session.nextToken + ((scan source).tokens.length - 1))
        known := by
  intro s accepted known member
  have read := Session.accepted?_sound accepted
  have closed : s.session.machine.Closed s.session.nextToken := by
    rw [after_session]
    exact Session.after_closed clock steps
  have ruled := (after_sound clock steps).ruled_start read
  refine ⟨Session.start_closed closed read (Nat.le_add_right _ _), fun v visited form o mention => ?_⟩
  refine ruled.distance v form o ?_ mention
  have part : v ∈ (program :: s.programs).flatMap programVisits :=
    List.mem_flatMap.2 ⟨known, member, visited⟩
  rwa [List.flatMap_cons] at part

end Lox
