import Lox.Proofs.Evaluation.Stability
import Lox.Proofs.Trace.Sessions

/-!
# The environment is restored

A run may enter environments, for blocks and for calls, and it may end in the middle of any number of
them. Whatever ends it, the environment that was current before is current again. So every program of a
session starts and ends in the environment of the globals.
-/

namespace Lox

/-- The current environment and that of the globals are the same on both machines. -/
structure Machine.SamePlace (m m' : Machine) : Prop where
  current : m'.current = m.current
  globals : m'.globals = m.globals

/-- The only step that changes the environment is the one that comes back from it. -/
theorem Machine.SamePlace.stable : Stable SamePlace where
  refl _ := ⟨rfl, rfl⟩
  trans first second := ⟨second.current.trans first.current, second.globals.trans first.globals⟩
  heap _ _ _ := ⟨rfl, rfl⟩
  printed _ _ := ⟨rfl, rfl⟩
  readings _ := ⟨rfl, rfl⟩
  inside _ within := ⟨rfl, within.globals⟩

namespace Session

/-- The session stands in the environment of the globals. -/
def AtGlobals (s : Session) : Prop := s.machine.current = s.machine.globals

theorem atGlobals_invariant : Invariant AtGlobals where
  define outermost _ _ _ := outermost
  run {s} outermost limits _ program _ := by
    have same := Machine.SamePlace.stable.interpret limits.loops limits.depth program
      (s.start program)
    exact same.current.trans (outermost.trans same.globals.symm)

theorem after_atGlobals (clock : Nat → Float) (steps : List Step) :
    (after clock steps).AtGlobals :=
  atGlobals_invariant.after rfl steps

end Session

/--
The current environment is restored by every run: of an expression, of a statement, of statements in an
environment of their own and of the body of a function. The tree, the distances and the machine are
any, and the run may end with a value or with any signal. So a program ends where it starts, and every
session is in the environment of the globals after each of its steps.
-/
theorem environment_restored :
    (∀ loops depth e m, ((evaluate loops depth e).left m).current = m.current) ∧
    (∀ loops depth s m, ((execute loops depth s).left m).current = m.current) ∧
    (∀ loops depth e (body : List Stmt) m,
      ((Run.inEnvironment e (body.forM (execute loops depth))).left m).current = m.current) ∧
    (∀ loops depth f arguments m,
      ((Run.callFunction (execute loops depth) f arguments).left m).current = m.current) ∧
    (∀ loops depth program m,
      (interpret loops depth program m).2.current = m.current ∧
        (interpret loops depth program m).2.globals = m.globals) ∧
    ∀ clock steps, (Session.after clock steps).machine.current =
      (Session.after clock steps).machine.globals := by
  have stable := Machine.SamePlace.stable
  have executes := fun loops depth => (stable.evaluation loops depth).2
  refine ⟨fun loops depth e m => ?_, fun loops depth s m => ?_, fun loops depth e body m => ?_,
    fun loops depth f arguments m => ?_, fun loops depth program m => ?_, Session.after_atGlobals⟩
  · exact ((stable.evaluation loops depth).1 e m).current
  · exact (executes loops depth s m).current
  · exact (stable.inEnvironment (stable.forM (executes loops depth) body) e m).current
  · exact (stable.callFunction (executes loops depth) f arguments m).current
  · have same := stable.interpret loops depth program m
    exact ⟨same.current, same.globals⟩

end Lox
