import Lox.Proofs.Evaluation.Origins
import Lox.Proofs.Grammar.WellFormed

/-!
# Operators that a run knows

A run meets an operator that it does not know only at a node that is not well formed. The trees that a run
walks are those of its program and of the functions in the heap, and it adds to these only functions that
are declared in such trees.
-/

namespace Lox

/-- The fault is not that an operator is unknown. -/
def RuntimeFault.Known (fault : RuntimeFault) : Prop := fault ≠ .unknownUnary ∧ fault ≠ .unknownBinary

/-! ## Operators -/

theorem unaryOperation_known {operator : TokenKind} (listed : operator ∈ [.bang, .minus])
    {operand : Value} {fault : RuntimeFault} (result : unaryOperation operator operand = .error fault) :
    fault.Known := by
  simp only [List.mem_cons, List.not_mem_nil, or_false] at listed
  obtain rfl | rfl := listed
  · cases result
  · simp only [unaryOperation] at result
    split at result <;> cases result
    exact ⟨nofun, nofun⟩

theorem numberOperation_ok {operator : TokenKind}
    (listed : operator ∈ [.greater, .greaterEqual, .less, .lessEqual, .minus, .slash, .star])
    (x y : Float) : ∃ value, numberOperation operator x y = .ok value := by
  simp only [List.mem_cons, List.not_mem_nil, or_false] at listed
  obtain rfl | rfl | rfl | rfl | rfl | rfl | rfl := listed <;> exact ⟨_, rfl⟩

theorem binaryOperation_known {operator : TokenKind} (listed : operator ∈ binaryOperators)
    {left right : Value} {fault : RuntimeFault}
    (result : binaryOperation operator left right = .error fault) : fault.Known := by
  unfold binaryOperation at result
  split at result
  · cases result
  · cases result
  · split at result <;> cases result
    exact ⟨RuntimeFault.noConfusion, RuntimeFault.noConfusion⟩
  · next equal different plus =>
    split at result
    · -- an operator between numbers that is listed has a result
      next x y =>
      have arithmetic : operator ∈
          [.greater, .greaterEqual, .less, .lessEqual, .minus, .slash, .star] := by
        simp only [binaryOperators] at listed
        simp_all
      obtain ⟨value, computed⟩ := numberOperation_ok arithmetic x y
      rw [computed] at result
      cases result
    · cases result
      exact ⟨RuntimeFault.noConfusion, RuntimeFault.noConfusion⟩

/-! ## Nodes -/

theorem Node.Sound.throughout {node : Node} (sound : node.Sound) : node.Throughout WellFormed := by
  intro part below
  induction below using Relation.ReflTransGen.head_induction_on with
  | refl => exact sound.wellFormed
  | head child _ inductionHypothesis => exact inductionHypothesis ((sound_iff.1 sound).2 _ child)

/-- An operator that a well-formed node has is known. No other fault is about an operator. -/
theorem Node.Raises.known {node : Node} {error : RuntimeError} (raises : node.Raises error)
    (wellFormed : node.WellFormed) : error.fault.Known := by
  cases raises with
  | unary operand fails => exact unaryOperation_known wellFormed fails
  | binary left right fails => exact binaryOperation_known wellFormed fails
  | _ => exact ⟨nofun, nofun⟩

/-- The run of sound statements, on a heap with well-formed code, fails at no unknown operator. -/
theorem interpret_known {loops depth : Nat} {program : List Stmt} (sound : ∀ s ∈ program, s.Sound)
    {m : Machine} (code : m.heap.CodeOf Node.WellFormed) {error : RuntimeError}
    (failed : (interpret loops depth program m).1 = .failed error) : error.fault.Known := by
  have all := fun s member => (sound s member).throughout
  obtain ⟨node, wellFormed, raises⟩ := (interpret_by loops depth all code).2 error failed
  exact raises.known wellFormed

end Lox
