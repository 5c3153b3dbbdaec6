import Lox.Proofs.Grammar.Derivation

/-!
# Shapes of derived trees

Which trees a chain can have. A parser learns that an expression is the target of an assignment only from
the tree that it has built for it: a name, or a property of an operand.
-/

namespace Lox.Grammar

/-- The tree of a binary operation. -/
def IsOperation (e : Expr) : Prop :=
  ∃ left operator right, e = .logical left operator right ∨ e = .binary left operator right

theorem Tier.build_isOperation (tier : Tier) (left : Expr) (operator : Occurrence) (right : Expr) :
    IsOperation (tier.build left operator right) := by
  refine ⟨left, operator, right, ?_⟩
  cases tier <;> simp [Tier.build]

namespace Derivation

/-- Operations leave an operand as it is, or make an operation of it. -/
theorem operations_tree {tier : Tier} {tighter : List Tier} :
    (d : Derivation (.operations tier tighter)) →
      (d.yield = [] ∧ ∀ e, d.tree e = e) ∨ ∀ e, IsOperation (d.tree e)
  | noOperation => .inl ⟨rfl, fun _ => rfl⟩
  | operation operator right others => by
    right
    intro e
    rcases operations_tree others with ⟨-, same⟩ | operation
    · simp only [tree, same]
      exact tier.build_isOperation e operator.occurrence right.tree
    · exact operation _

/-- A chain that is no operation is an operand. -/
theorem chain_tree : {tiers : List Tier} → (d : Derivation (.chain tiers)) →
    ¬IsOperation d.tree → ∃ u : Derivation .unary, u.yield = d.yield ∧ u.tree = d.tree
  | _, single inner => fun _ => ⟨inner, rfl, rfl⟩
  | _, chain first others => by
    intro notOperation
    rw [tree] at notOperation
    rcases operations_tree others with ⟨none, same⟩ | operation
    · rw [same] at notOperation
      obtain ⟨u, word, value⟩ := chain_tree first notOperation
      exact ⟨u, by rw [word, yield, none, List.append_nil], by rw [value, tree, same]⟩
    · exact absurd (operation _) notOperation

/-- Suffixes are none, or there is a last one. -/
theorem suffixes_last : (d : Derivation .suffixes) →
    (d.yield = [] ∧ ∀ e, d.tree e = e) ∨ ∃ (before : Derivation .suffixes)
      (last : Derivation .suffix), d.yield = before.yield ++ last.yield ∧
        ∀ e, d.tree e = last.tree (before.tree e)
  | noSuffix => .inl ⟨rfl, fun _ => rfl⟩
  | someSuffix first others => by
    right
    rcases suffixes_last others with ⟨none, same⟩ | ⟨before, last, word, value⟩
    · exact ⟨noSuffix, first, by simp [yield, none], fun e => by simp only [tree, same]⟩
    · exact ⟨someSuffix first before, last, by simp [yield, word], fun e => by simp only [tree, value]⟩

/-- Only a name has the tree of a name. -/
theorem unary_name (u : Derivation .unary) {o : Occurrence} (value : u.tree = Expr.name o) :
    ∃ target : Identifier, target.occurrence = o ∧ u.yield = [o] := by
  cases u with
  | unary => cases value
  | call first suffixes =>
    rw [tree] at value
    rcases suffixes_last suffixes with ⟨none, same⟩ | ⟨before, last, -, same⟩
    · rw [same] at value
      cases first with
      | named token =>
        cases value
        exact ⟨token, rfl, by rw [yield, none, List.append_nil]; rfl⟩
      | _ => cases value
    · rw [same] at value
      cases last <;> cases value

/-- Only an operand that ends with a property has the tree of a property. -/
theorem unary_property (u : Derivation .unary) {object : Expr} {property : Occurrence}
    (value : u.tree = Expr.get object property) :
    ∃ (first : Derivation .primary) (suffixes : Derivation .suffixes) (dot : Terminal [.dot])
      (name : Identifier), u.yield = first.yield ++ (suffixes.yield ++
        [dot.occurrence, name.occurrence]) ∧
        suffixes.tree first.tree = object ∧ name.occurrence = property := by
  cases u with
  | unary => cases value
  | call first suffixes =>
    rw [tree] at value
    -- The tree is decided by the last suffix; without one it is that of the primary.
    rcases suffixes_last suffixes with ⟨-, same⟩ | ⟨before, last, word, same⟩
    · rw [same] at value
      cases first <;> cases value
    · rw [same] at value
      cases last with
      | access dot name =>
        cases value
        exact ⟨first, before, dot, name, by rw [yield, word]; rfl, rfl, rfl⟩
      | _ => cases value

/-- The tree of an assignment. -/
def IsAssignment (e : Expr) : Prop :=
  (∃ target value, e = .assign target value) ∨ ∃ object property value, e = .set object property value

theorem unary_not_assignment (u : Derivation .unary) : ¬IsAssignment u.tree := by
  rintro (⟨target, value, assigned⟩ | ⟨object, property, value, assigned⟩)
  all_goals
    cases u with
    | unary => cases assigned
    | call first suffixes =>
      rw [tree] at assigned
      rcases suffixes_last suffixes with ⟨-, same⟩ | ⟨before, last, -, same⟩
      · rw [same] at assigned
        cases first <;> cases assigned
      · rw [same] at assigned
        cases last <;> cases assigned

/-- No chain is an assignment. -/
theorem chain_not_assignment {tiers : List Tier} (d : Derivation (.chain tiers)) :
    ¬IsAssignment d.tree := by
  intro assignment
  have notOperation : ¬IsOperation d.tree := by
    rintro ⟨left, operator, right, operation | operation⟩ <;> rw [operation] at assignment <;>
      rcases assignment with ⟨target, value, same⟩ | ⟨object, property, value, same⟩ <;> cases same
  obtain ⟨u, -, value⟩ := chain_tree d notOperation
  rw [← value] at assignment
  exact unary_not_assignment u assignment

end Derivation

end Lox.Grammar
