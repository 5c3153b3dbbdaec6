import Lox.Grammar.Statement
import Lox.Proofs.Desugaring.Evaluation

/-!
# Loops with clauses

The direct meaning of a `for` statement: one scope, in which the initializer runs once and which all
rounds share. The tree that stands for the statement has a scope more where there is an increment, and
a scope less where there is no initializer. Otherwise it runs alike.
-/

namespace Lox

open Run

/-- The clauses and the body of a `for` statement. -/
structure ForLoop where
  initializer : Option Stmt
  condition : Option Expr
  increment : Option Expr
  body : Stmt
  /-- The body declares nothing in the scope around it. -/
  plain : body.declared? = none

namespace ForLoop

/-- The tree that stands for the statement. -/
def tree (c : ForLoop) : Stmt := Grammar.forLoop c.initializer c.condition c.increment c.body

/-- The parts that all rounds share, as statements of one scope. -/
def rounds (condition increment : Option Expr) (body : Stmt) : List Stmt :=
  (condition.map .expression).toList ++ body :: (increment.map .expression).toList

/-- The parts of the statement in the order in which they stand in the tree. -/
def parts (c : ForLoop) : List Stmt :=
  c.initializer.toList ++ rounds c.condition c.increment c.body

/-! ## The direct meaning -/

section Direct

variable (loops depth : Nat)

def prepare : Option Stmt → Run Unit
  | none => return ()
  | some initializer => execute loops depth initializer

/-- Whether there is another round. -/
def again : Option Expr → Run Bool
  | none => return true
  | some condition => Value.isTruthy <$> evaluate loops depth condition

def advance : Option Expr → Run Unit
  | none => return ()
  | some increment => do let _ ← evaluate loops depth increment

/-- Runs the statement in one scope. -/
def run (c : ForLoop) : Run Unit := inScope do
  prepare loops depth c.initializer
  repeatWhile (again loops depth c.condition)
    (do
      execute loops depth c.body
      advance loops depth c.increment)
    loops

end Direct

/-- The same statement with other numbers for its occurrences. -/
def renumber (r : Nat → Nat) (c : ForLoop) : ForLoop where
  initializer := c.initializer.map (Stmt.renumber r)
  condition := c.condition.map (Expr.renumber r)
  increment := c.increment.map (Expr.renumber r)
  body := c.body.renumber r
  plain := (Stmt.declared?_renumber c.body).trans c.plain

end ForLoop

/-! ## Scopes more and less -/

/-- The ladder between the scopes of the rounds: without an initializer the tree has none for them. -/
def Ladder.loop (l : Ladder) (initializer : Option Stmt) : Ladder :=
  match initializer with
  | none => .right :: l
  | some _ => .common :: l

/-- The ladder between the scopes of a body: with an increment the tree has one for each round. -/
def Ladder.round (l : Ladder) (increment : Option Expr) : Ladder :=
  match increment with
  | none => l
  | some _ => .left :: l

/-- The parts of the statement shift along the ladders between their scopes. -/
structure ForLoop.Shifts (V : Versions) (r : Nat → Nat) (l : Ladder) (c : ForLoop) : Prop where
  initializer : ∀ s ∈ c.initializer, s.Shifts V r (.common :: l)
  condition : ∀ e ∈ c.condition, e.Shifts V r (l.loop c.initializer)
  body : c.body.Shifts V r ((l.loop c.initializer).round c.increment)
  increment : ∀ e ∈ c.increment, e.Shifts V r ((l.loop c.initializer).round c.increment)

/-! ## The tree and the direct meaning -/

namespace Comparison.Allows

variable {K : Comparison} {extra depth depth' : Nat}

theorem fewer {extra' : Nat} (allows : K.Allows extra depth depth') (fewer : extra' ≤ extra) :
    K.Allows extra' depth depth' :=
  allows.imp_right fun deeper => deeper.imp_right (Nat.le_trans (Nat.add_le_add_left fewer depth'))

/-- The first run is exhausted, or may go a level deeper on its own. -/
theorem descend (allows : K.Allows (extra + 1) depth depth') :
    (K.weaker = .left ∧ depth = 0) ∨ ∃ n, depth = n + 1 ∧ K.Allows extra n depth' := by
  cases depth with
  | zero =>
    rcases allows with ⟨weaker, -⟩ | ⟨-, deeper⟩
    · exact .inl ⟨weaker, rfl⟩
    · omega
  | succ n => exact .inr ⟨n, rfl, allows.imp (.imp_right (by omega)) (.imp_right (by omega))⟩

end Comparison.Allows

namespace ForLoop

variable {K : Comparison} {W : Bridge} {l : Ladder} {r : Nat → Nat} {loops depth depth' : Nat}

theorem again_bridged (allows : K.Allows 1 depth depth') {condition : Option Expr}
    (shifts : ∀ e ∈ condition, e.Shifts K.versions r l) :
    Run.Bridged K W l Bridge.Same
      (Value.isTruthy <$> evaluate loops depth (condition.getD (.literal (.bool true))))
      (again loops depth' (condition.map (Expr.renumber r))) := by
  cases condition with
  | none =>
    rcases allows.descend with ⟨weaker, rfl⟩ | ⟨n, rfl, -⟩
    · exact .spentLeft weaker
    · exact .pure fun _ _ => rfl
  | some e =>
    have evaluates := (evaluation_bridged K loops (allows.fewer (Nat.zero_le 1))).1
    exact (evaluates W r l e (shifts e rfl)).map fun _ _ _ both _ _ =>
      congrArg Value.isTruthy both.same.symm

/-- What the tree repeats. -/
def roundTree (body : Stmt) : Option Expr → Stmt
  | none => body
  | some increment => .block [body, .expression increment]

theorem forLoop_none (condition increment : Option Expr) (body : Stmt) :
    Grammar.forLoop none condition increment body =
      .while (condition.getD (.literal (.bool true))) (roundTree body increment) := by
  cases increment <;> rfl

theorem round_bridged (allows : K.Allows 2 depth depth') {body : Stmt} {increment : Option Expr}
    (bodies : body.Shifts K.versions r (l.round increment))
    (increments : ∀ e ∈ increment, e.Shifts K.versions r (l.round increment)) :
    Run.Bridged K W l Bridge.Same
      (execute loops depth (roundTree body increment))
      (do
        execute loops depth' (body.renumber r)
        advance loops depth' (increment.map (Expr.renumber r))) := by
  cases increment with
  | none =>
    have executes := (evaluation_bridged K loops (allows.fewer (Nat.zero_le 2))).2
    rw [Option.map_none, advance, bind_pure_unit]
    exact executes W r l body bodies
  | some e =>
    -- With an increment the tree has a block around the round, which costs a level and a scope.
    rcases allows.descend with ⟨weaker, rfl⟩ | ⟨n, rfl, inBlock⟩
    · exact .spentLeft weaker
    have executes := (evaluation_bridged K loops (inBlock.fewer (Nat.zero_le 1))).2
    apply Bridged.inScopeLeft
    intro W₁ _
    apply (executes W₁ r _ body bodies).bind
    intro W₂ _ _ _ _
    change Run.Bridged K W₂ _ Bridge.Same (execute loops n (.expression e) >>= fun _ => pure ()) _
    rw [bind_pure_unit]
    rcases inBlock.descend with ⟨weaker, rfl⟩ | ⟨k, rfl, inExpression⟩
    · exact .spentLeft weaker
    have evaluates := (evaluation_bridged K loops inExpression).1
    apply (evaluates W₂ r _ e (increments e rfl)).bind
    intro _ _ _ _ _
    exact .pure fun _ _ => rfl

theorem loop_bridged (allows : K.Allows 3 depth depth') {condition increment : Option Expr}
    {body : Stmt} (conditions : ∀ e ∈ condition, e.Shifts K.versions r l)
    (bodies : body.Shifts K.versions r (l.round increment))
    (increments : ∀ e ∈ increment, e.Shifts K.versions r (l.round increment)) :
    Run.Bridged K W l Bridge.Same
      (execute loops depth (Grammar.forLoop none condition increment body))
      (repeatWhile (again loops depth' (condition.map (Expr.renumber r)))
        (do
          execute loops depth' (body.renumber r)
          advance loops depth' (increment.map (Expr.renumber r)))
        loops) := by
  rw [forLoop_none]
  rcases allows.descend with ⟨weaker, rfl⟩ | ⟨n, rfl, inLoop⟩
  · exact .spentLeft weaker
  · exact .repeatWhile (again_bridged (inLoop.fewer (Nat.le_succ 1)) conditions)
      (round_bridged inLoop bodies increments) loops

/-- The tree runs as the statement is meant. -/
theorem run_bridged (allows : K.Allows 4 depth depth') {c : ForLoop}
    (shifts : c.Shifts K.versions r l) :
    Run.Bridged K W l Bridge.Same (execute loops depth c.tree) ((c.renumber r).run loops depth') := by
  obtain ⟨initializer, condition, increment, body, plain⟩ := c
  obtain ⟨initializers, conditions, bodies, increments⟩ := shifts
  cases initializer with
  | none =>
    -- Without an initializer the tree has no block, where the statement has a scope.
    apply Bridged.inScopeRight
    intro W₁ _
    exact loop_bridged (allows.fewer (Nat.le_succ 3)) conditions bodies increments
  | some first =>
    rcases allows.descend with ⟨weaker, rfl⟩ | ⟨n, rfl, inBlock⟩
    · exact .spentLeft weaker
    have executes := (evaluation_bridged K loops (inBlock.fewer (Nat.zero_le 3))).2
    apply Bridged.inScope
    intro W₁ _
    apply (executes W₁ r _ first (initializers first rfl)).bind
    intro W₂ _ _ _ _
    change Run.Bridged K W₂ _ Bridge.Same
      (execute loops n (Grammar.forLoop none condition increment body) >>= fun _ => pure ()) _
    rw [bind_pure_unit]
    exact loop_bridged inBlock conditions bodies increments

end ForLoop

end Lox
