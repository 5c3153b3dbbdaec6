import Lox.Proofs.Heap.Growth
import Lox.Proofs.Session.Provenance
import Lox.Proofs.Session.Restoration

/-!
# What stays for good

Whatever is executed, and from whatever machine, the heap grows and nothing on it is lost. In a session the
code comes from texts that were accepted, so that no node of it gives a value to `this` or `super`: what such
a name means in an environment, it means for good. Only the host could define it anew, among the globals.
-/

namespace Lox

/-- The run of code that was read from texts, on a heap with such code. -/
theorem execute_read (loops depth : Nat) {body : List Stmt}
    (read : ∀ s ∈ body, (Node.statement s).Throughout Node.Read) {m : Machine}
    (code : m.heap.CodeOf Node.Read) :
    m.heap.StepsBy Node.Read ((body.forM (execute loops depth)).left m).heap := by
  have here := Run.By.forM
    (fun s member => (Run.By.evaluation Node.Read loops depth).2 s (read s member)) m code
  unfold Run.left
  generalize body.forM (execute loops depth) m = result at here
  cases result with
  | ok _ m' => exact here.1
  | error _ m' => exact here.1

namespace Session

/-- The host defines no implicit name. -/
def Step.Ordinary : Step → Prop
  | .run _ _ => True
  | .define name _ _ => IsOrdinary name

/--
The second session goes on from the first: with the same globals, with code from texts, with all objects,
and with the values of implicit names. Among the globals these stay if the host is `discreet`.
-/
structure Continues (s s' : Session) (discreet : Prop) : Prop where
  globals : s'.machine.globals = s.machine.globals
  code : s'.machine.heap.CodeOf Node.Read
  retains : s.machine.heap.Retains s'.machine.heap
  implicit : ∀ (e : EnvironmentId) (name : String) (value : Value), name = "this" ∨ name = "super" →
    e ≠ s.machine.globals ∨ discreet →
    (s.machine.heap.environmentAt e).names.find? name = some value →
    (s'.machine.heap.environmentAt e).names.find? name = some value

theorem continues_step {s : Session} (code : s.machine.heap.CodeOf Node.Read) (next : Step) :
    s.Continues (s.step next) next.Ordinary := by
  cases next with
  | define name value scalar =>
    refine ⟨rfl, code, (Heap.Step.define s.machine.globals name value).retains, ?_⟩
    intro e other old implicit spared bound
    change ((s.machine.heap.define s.machine.globals name value).environmentAt e).names.find? other = _
    rw [Heap.find?_define]
    -- either the environment or the name is another one
    split
    · next here =>
      have same : e = s.machine.globals := by
        cases e
        exact congrArg EnvironmentId.mk here.1.symm
      have different : name ≠ other := by
        rintro rfl
        exact spared.elim (· same) (Heap.not_isOrdinary implicit)
      rwa [if_neg different]
    · exact bound
  | run limits source =>
    rw [Session.step]
    cases accepted : s.accepted? limits source with
    | none =>
      rw [run_rejected accepted]
      exact ⟨rfl, code, .refl _, fun _ _ _ _ _ bound => bound⟩
    | some program =>
      have read := (accepted?_eq_some_iff.1 accepted).read
      have start : (s.start program).heap.CodeOf Node.Read := code
      obtain ⟨steps, -⟩ := interpret_by limits.loops limits.depth read start
      have place := Machine.SamePlace.stable.interpret limits.loops limits.depth program (s.start program)
      have grown := Heap.retains_stable.interpret limits.loops limits.depth program (s.start program)
      rw [(run_accepted accepted).1]
      exact ⟨place.globals, steps.codeOf start, grown.1, fun e name value implicit _ =>
        steps.keepsImplicit (fun _ _ read => read.defines) e name value implicit⟩

theorem continues_steps {s : Session} (code : s.machine.heap.CodeOf Node.Read) (later : List Step) :
    s.Continues (later.foldl step s) (∀ next ∈ later, next.Ordinary) := by
  induction later generalizing s with
  | nil => exact ⟨rfl, code, .refl _, fun _ _ _ _ _ bound => bound⟩
  | cons next later inductionHypothesis =>
    have first := continues_step code next
    have others := inductionHypothesis first.code
    refine ⟨others.globals.trans first.globals, others.code, first.retains.trans others.retains, ?_⟩
    intro e name value implicit spared bound
    rw [List.forall_mem_cons] at spared
    refine others.implicit e name value implicit ?_ (first.implicit e name value implicit ?_ bound)
    · exact spared.imp (first.globals ▸ ·) And.right
    · exact spared.imp id And.left

end Session

/--
The heap only grows. To execute any statements, with any distances and on any heap, is to keep all objects
with what they cannot be assigned, whatever the outcome; the distances stay. Accepted programs give no value
to `this` or `super`. So at any moment of a session, when all code is that of accepted programs, to execute
such code leaves the values of these names as they are in all environments; and so does all that happens
to the session later, except that the host may define the names among the globals.
-/
theorem heap_only_grows :
    (∀ loops depth (body : List Stmt) m,
      m.heap.Retains ((body.forM (execute loops depth)).left m).heap ∧
        ((body.forM (execute loops depth)).left m).distances = m.distances) ∧
    (∀ clock earlier limits source program,
      (Session.after clock earlier).accepted? limits source = some program →
        (Session.after clock earlier).machine.heap.CodeOf Node.Read ∧
          ∀ s ∈ program, (Node.statement s).Throughout Node.Read) ∧
    (∀ loops depth (body : List Stmt) (m : Machine), m.heap.CodeOf Node.Read →
      (∀ s ∈ body, (Node.statement s).Throughout Node.Read) →
        m.heap.KeepsImplicit ((body.forM (execute loops depth)).left m).heap ∧
          ((body.forM (execute loops depth)).left m).heap.CodeOf Node.Read) ∧
    (∀ clock earlier later,
      let before := (Session.after clock earlier).machine
      let now := (Session.after clock (earlier ++ later)).machine
      before.heap.Retains now.heap ∧
        ∀ e name value, name = "this" ∨ name = "super" →
          e ≠ before.globals ∨ (∀ step ∈ later, step.Ordinary) →
          (before.heap.environmentAt e).names.find? name = some value →
          (now.heap.environmentAt e).names.find? name = some value) := by
  refine ⟨?_, ?_, ?_, ?_⟩
  · intro loops depth body m
    exact Heap.retains_stable.forM (Heap.retains_stable.evaluation loops depth).2 body m
  · intro clock earlier limits source program accepted
    exact ⟨Session.after_read clock earlier, (Session.accepted?_eq_some_iff.1 accepted).read⟩
  · intro loops depth body m code read
    have steps := execute_read loops depth read code
    exact ⟨steps.keepsImplicit fun _ _ read => read.defines, steps.codeOf code⟩
  · intro clock earlier later
    have continues := Session.continues_steps (Session.after_read clock earlier) later
    rw [Session.after, ← List.foldl_append] at continues
    exact ⟨continues.retains, continues.implicit⟩

/-- A method that yields a function of its instance. -/
def keeper : String :=
  "class A \x7b m() \x7b fun g() \x7b return this; \x7d return g; \x7d \x7d var g = A().m();"

/-- A text that calls the function and the method again. -/
def keeperCalled : String := "g(); var h = A().m();"

def keeperRuns : List Session.Step := [.run ⟨60, 60, 60, 60⟩ keeper]

theorem heap_only_grows_keeper :
    ∃ program value,
      (Session.after (fun _ => 0) keeperRuns).accepted? ⟨60, 60, 60, 60⟩ keeperCalled = some program ∧
      ((Session.after (fun _ => 0) keeperRuns).machine.heap.environmentAt ⟨1⟩).names.find? "this" =
        some value ∧
      ((Session.after (fun _ => 0)
        (keeperRuns ++ [.run ⟨60, 60, 60, 60⟩ keeperCalled])).machine.heap.environmentAt ⟨1⟩).names.find?
          "this" = some value ∧
      (Session.after (fun _ => 0) keeperRuns).machine.heap.KeepsImplicit
        ((program.forM (execute 60 60)).left (Session.after (fun _ => 0) keeperRuns).machine).heap := by
  have computed : ((Session.after (fun _ => 0) keeperRuns).accepted? ⟨60, 60, 60, 60⟩ keeperCalled).isSome =
        true ∧
      (((Session.after (fun _ => 0) keeperRuns).machine.heap.environmentAt ⟨1⟩).names.find? "this").isSome =
        true ∧
      EnvironmentId.mk 1 ≠ (Session.after (fun _ => 0) keeperRuns).machine.globals := by
    decide +kernel
  simp only [Option.isSome_iff_exists] at computed
  obtain ⟨⟨program, accepted⟩, ⟨value, bound⟩, inner⟩ := computed
  obtain ⟨-, texts, runs, sessions⟩ := heap_only_grows
  obtain ⟨code, read⟩ := texts _ _ _ _ _ accepted
  refine ⟨program, value, accepted, bound, ?_, (runs 60 60 program _ code read).1⟩
  exact (sessions _ _ [.run ⟨60, 60, 60, 60⟩ keeperCalled]).2 ⟨1⟩ "this" value (.inl rfl) (.inl inner) bound

end Lox
