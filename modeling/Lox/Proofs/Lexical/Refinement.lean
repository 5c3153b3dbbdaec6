import Lox.Proofs.Session.Chronicle

/-!
# Distances implement lexical scoping

On a new machine, an accepted program runs by its distances as it is evaluated lexically. The tables of
the machine gain names after closures have captured them, and the map of the lexical evaluation does
not; the distances make up for that.
-/

namespace Lox

open Lexical (Store)

/--
The run of an accepted program that ends in no internal fault ends as its lexical evaluation ends: with
the same outcome, the same lines printed, the same globals and the same objects, which have the same
text.
-/
theorem interpret_eq_lexical {source : String} {nesting start : Nat} {parsed : Parse}
    (result : parse? nesting start (scan source).tokens = some parsed)
    (accepted : (resolve parsed.statements).errors = [])
    (clock : Nat → Float) (loops depth : Nat) {outcome : Outcome} {m : Machine}
    (run : interpret loops depth parsed.statements
      ((Machine.initial clock).addDistances (resolve parsed.statements).bindings) = (outcome, m))
    (noFault : ∀ fault, outcome ≠ .escaped (.internal fault)) :
    ∃ s : Store, Lexical.interpret loops depth parsed.statements (.initial clock) = (outcome, s) ∧
      s.printed = m.printed ∧ m.heap.environmentAt m.globals = ⟨s.globals, none⟩ ∧
      m.heap.Alike s ∧ ∀ value, s.objects.display value = m.heap.display value := by
  have program := Program.accepted_of_parse result accepted
  let D : Distances := Distances.empty.addAll (resolve parsed.statements).bindings
  have ruled : Ruled (· ∈ programVisits parsed.statements) D :=
    ⟨program.lawful, program.faultless, fun v form o visited mention =>
      program.distance (fun n _ => Distances.find?_empty n) visited mention⟩
  let j : Joint (· ∈ programVisits parsed.statements) D :=
    ⟨.initial, ⟨{ Machine.initial clock with distances := D }, []⟩, .initial clock,
      Related.initial clock D⟩
  have stands : j.Stands .topLevel .global := World.stands_topLevel rfl
  obtain ⟨j', -, traced, ended⟩ :=
    j.interpret_lockstep ruled loops depth stands program.placed fun v visited => visited
  -- Without its account the traced run is the run of the machine.
  have erased := interpret_noted Moment.scribe loops depth parsed.statements j.traced
  rw [traced] at erased
  have both := Prod.mk.inj (run.symm.trans erased)
  rw [← both.1] at ended
  have related := j'.related
  rw [both.2]
  -- The two part only at an internal fault, which is excluded.
  cases ended with
  | same lexical _ =>
    refine ⟨j'.store, lexical, related.printed, ?_, related.alike, related.alike.display⟩
    rw [related.globals]
    exact related.real.globalNames
  | excused signal ends excused =>
    obtain ⟨o, _, _, _, rfl, -⟩ := excused
    exact absurd ends (noFault _)

/-- A block that declares a variable after a function has captured the global of the same name. -/
def lateDeclaration : String :=
  "var a = true; \x7b fun show() \x7b print a; \x7d show(); var a = false; show(); print a; \x7d"

theorem lateDeclaration_parses :
    (parse? 60 0 (scan lateDeclaration).tokens).isSome = true := by decide +kernel

theorem interpret_eq_lexical_lateDeclaration :
    ∃ parsed s, parse? 60 0 (scan lateDeclaration).tokens = some parsed ∧
      Lexical.interpret 60 60 parsed.statements (.initial fun _ => 0) = (.finished, s) ∧
      s.printed = #["true", "true", "false"] := by
  let parsed := (parse? 60 0 (scan lateDeclaration).tokens).get lateDeclaration_parses
  have accepted : (resolve parsed.statements).errors = [] := by decide +kernel
  let ended := interpret 60 60 parsed.statements
    ((Machine.initial fun _ => 0).addDistances (resolve parsed.statements).bindings)
  have finished : ended.1 = .finished := by decide +kernel
  have printed : ended.2.printed = #["true", "true", "false"] := by decide +kernel
  have run : interpret 60 60 parsed.statements
    ((Machine.initial fun _ => 0).addDistances (resolve parsed.statements).bindings) =
      (ended.1, ended.2) := (Prod.eta ended).symm
  obtain ⟨s, lexical, same, -⟩ := interpret_eq_lexical (Option.some_get _).symm accepted
    (fun _ => 0) 60 60 run (by simp [finished])
  exact ⟨parsed, s, (Option.some_get _).symm, finished ▸ lexical, same.trans printed⟩

end Lox
