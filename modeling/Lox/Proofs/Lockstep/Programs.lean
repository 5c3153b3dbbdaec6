import Lox.Proofs.Lockstep.Evaluation

/-!
# Programs in step

A program that the resolver accepted runs in step with its lexical evaluation, unless it comes to an
assignment to a local variable in its own initializer. No other internal fault ends its run.
-/

namespace Lox

open Lexical (CellId Names Store LexicalRun)

variable {V : Visit → Prop} {D : Distances}

/-- The way in which a program ended is none that only a fault of the interpreter explains. -/
structure Outcome.Fair (outcome : Outcome) : Prop where
  internal : ∀ fault, outcome ≠ .escaped (.internal fault)
  super : outcome ≠ .escaped .unresolvedSuper

theorem Signal.Fair.outcome {W : World} {signal : Signal} (fair : signal.Fair W) :
    signal.outcome.Fair := by
  cases signal with
  | failed | returned | exhausted => exact ⟨by simp [Signal.outcome], by simp [Signal.outcome]⟩
  | internal | unresolvedSuper => exact fair.elim

/-- How a program may end on both sides. -/
inductive Joint.Ended (j : Joint V D) (outcome : Outcome) (lexical : Outcome × Store) : Prop where
  | same : lexical = (outcome, j.store) → outcome.Fair → Ended j outcome lexical
  | excused (signal : Signal) : outcome = signal.outcome → Excused V signal j.traced →
      Ended j outcome lexical

theorem Joint.interpret_lockstep (ruled : Ruled V D) (loops depth : Nat) {j : Joint V D}
    (stands : j.Stands .topLevel .global) {program : Program} (placed : Stmt.AllWellPlaced program)
    (visited : ∀ v ∈ programVisits program, V v) :
    ∃ j', j.Before (some j.current) j' ∧
      (NotedRun.interpret Moment.scribe loops depth program j.traced).2 = j'.traced ∧
      j'.Ended (NotedRun.interpret Moment.scribe loops depth program j.traced).1
        (Lexical.interpret loops depth program j.store) := by
  have settled : Place.topLevel.Settled := by simp [Place.Settled, Place.topLevel]
  have steps := (evaluation_lockstep ruled loops depth).2.all stands settled placed visited
  rw [NotedRun.interpret, Lexical.interpret]
  rcases steps with ⟨_, names, j', here, there, before, -⟩ | ⟨signal, j', here, before, ended⟩
  · rw [here, there]
    exact ⟨j', before, rfl, .same rfl ⟨by simp, by simp⟩⟩
  · rw [here]
    refine ⟨j', before, rfl, ?_⟩
    rcases ended with excused | ⟨there, fair⟩
    · exact .excused signal rfl excused
    · rw [there]
      exact .same rfl fair.outcome

end Lox
