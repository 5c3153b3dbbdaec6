import Lox.Proofs.Evaluation.KnownOperators
import Lox.Proofs.Trace.Sessions

/-!
# What later phases rely on

The parser yields well-formed trees only, whatever tokens it gets and whatever faults it recovers from. So
no run meets an operator that it does not know, and no declaration depends on a condition.
-/

namespace Lox

namespace Session

theorem initial_codeOf (P : Node → Prop) (clock : Nat → Float) :
    (initial clock).machine.heap.CodeOf P := by
  rintro f s ⟨⟩

/-- If all accepted programs have a property throughout, so have the functions of a session. -/
theorem codeOf_invariant {P : Node → Prop}
    (programs : ∀ {limits nextToken source program}, Clean limits nextToken source program →
      ∀ s ∈ program, (Node.statement s).Throughout P) :
    Invariant fun s => s.machine.heap.CodeOf P where
  define holds _ _ _ := holds
  run {s} holds limits _ program accepted := by
    have start : (s.start program).heap.CodeOf P := holds
    have all := programs (accepted?_eq_some_iff.1 accepted)
    exact (interpret_by limits.loops limits.depth all start).1.codeOf start

/-- The texts of a session declare well-formed functions only. -/
theorem after_wellFormed (clock : Nat → Float) (steps : List Step) :
    (after clock steps).machine.heap.CodeOf Node.WellFormed :=
  (codeOf_invariant fun clean s member => (parse?_sound clean.parsed s member).throughout).after
    (initial_codeOf _ clock) steps

end Session

/--
Whatever tokens are parsed, the statements that result are well formed at every depth: operators and names
have the kinds that their forms demand, and declarations stand in lists of statements. To run them after any
history, with whatever distances, is never to fail at an unknown operator.
-/
theorem parse?_wellFormed {depth start : Nat} {tokens : List Token} {parsed : Parse}
    (result : parse? depth start tokens = some parsed) :
    (∀ trail node, Reaches [] (.program parsed.statements) trail node →
      node.WellFormed ∧ ∀ s, node = .statement s → s.declared? ≠ none → trail.InList) ∧
    ∀ (clock : Nat → Float) (earlier : List Session.Step) (m : Machine) (loops nesting : Nat)
      (error : RuntimeError), m.heap = (Session.after clock earlier).machine.heap →
      (interpret loops nesting parsed.statements m).1 = .failed error →
      error.fault ≠ .unknownUnary ∧ error.fault ≠ .unknownBinary := by
  refine ⟨fun trail node => parse?_nodes result, ?_⟩
  intro clock earlier m loops nesting error heap failed
  have code : m.heap.CodeOf Node.WellFormed := heap ▸ Session.after_wellFormed clock earlier
  exact interpret_known (parse?_sound result) code failed

/-- A branch that is a declaration, from which the parser recovers, and a block whose run fails. -/
def misplaced : String := "if (true) var a; \x7b fun b() \x7b\x7d var c = !b == -nil; \x7d"

def Outcome.isFailed : Outcome → Bool
  | .failed _ => true
  | _ => false

theorem Outcome.isFailed_iff {outcome : Outcome} :
    outcome.isFailed = true ↔ ∃ error, outcome = .failed error := by
  cases outcome <;> simp [isFailed]

theorem parse?_wellFormed_misplaced :
    ∃ parsed error, parse? 60 0 (scan misplaced).tokens = some parsed ∧
      parsed.errors.map ParseError.fault = [.noExpression] ∧ parsed.statements.length = 1 ∧
      (∀ trail s, Reaches [] (.program parsed.statements) trail (.statement s) → s.declared? ≠ none →
        trail.InList) ∧
      (interpret 60 60 parsed.statements (Session.after (fun _ => 0) []).machine).1 = .failed error ∧
      error.fault ≠ .unknownUnary ∧ error.fault ≠ .unknownBinary := by
  have computed : (parse? 60 0 (scan misplaced).tokens).any (fun parsed =>
      parsed.errors.map ParseError.fault == [.noExpression] && parsed.statements.length == 1 &&
        (interpret 60 60 parsed.statements
          (Session.after (fun _ => 0) []).machine).1.isFailed) = true := by
    decide +kernel
  simp only [Option.any_eq_true, Bool.and_eq_true, beq_iff_eq, Outcome.isFailed_iff] at computed
  obtain ⟨parsed, parses, ⟨faults, statements⟩, error, failed⟩ := computed
  obtain ⟨nodes, runs⟩ := parse?_wellFormed parses
  refine ⟨parsed, error, parses, faults, statements, ?_, failed, ?_⟩
  · exact fun trail s reaches => (nodes trail _ reaches).2 s rfl
  · exact runs (fun _ => 0) [] _ 60 60 error rfl failed

end Lox
