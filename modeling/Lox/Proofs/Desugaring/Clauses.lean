import Lox.Proofs.Desugaring.Loops
import Lox.Proofs.Desugaring.Scopes

/-!
# The scopes of a loop with clauses

Resolved in one scope, the parts of a `for` statement get other distances than those that they have in
its tree. They shift along the ladders between the scopes of the two.
-/

namespace Lox

/-! ## Parts with other numbers -/

section Renumber

variable {r : Nat → Nat}

theorem Stmt.renumberAll_append (ss others : List Stmt) :
    Stmt.renumberAll r (ss ++ others) = Stmt.renumberAll r ss ++ Stmt.renumberAll r others := by
  induction ss with
  | nil => rfl
  | cons s rest inductionHypothesis =>
    rw [List.cons_append, Stmt.renumberAll, Stmt.renumberAll, inductionHypothesis, List.cons_append]

namespace ForLoop

theorem rounds_renumber (condition increment : Option Expr) (body : Stmt) :
    rounds (condition.map (Expr.renumber r)) (increment.map (Expr.renumber r)) (body.renumber r) =
      Stmt.renumberAll r (rounds condition increment body) := by
  cases condition <;> cases increment <;> rfl

theorem parts_renumber (c : ForLoop) : (c.renumber r).parts = Stmt.renumberAll r c.parts := by
  rw [parts, parts, Stmt.renumberAll_append, ← rounds_renumber]
  cases initializer : c.initializer <;> simp [renumber, initializer, Stmt.renumberAll]

end ForLoop

end Renumber

theorem Place.IsRegular.head_super {p : Place} (regular : p.IsRegular) :
    ∀ s ∈ p.scopes.head?, s.contains "super" = false := by
  have plain := regular.head_plain
  rw [Place.scopes, List.head?_map]
  rintro s here
  obtain ⟨level, head, rfl⟩ := Option.map_eq_some_iff.1 here
  exact Scope.Plain.super (plain level head)

/-- The parts that all rounds share are looked at from one place. -/
theorem ForLoop.visits_rounds {P : Visit → Prop} {p : Place} {condition increment : Option Expr}
    {body : Stmt} (stays : body.after p = p) :
    (∀ v ∈ Stmt.allVisits p (rounds condition increment body), P v) ↔
      (∀ e ∈ condition, ∀ v ∈ e.visits p, P v) ∧ (∀ v ∈ body.visits p, P v) ∧
        ∀ e ∈ increment, ∀ v ∈ e.visits p, P v := by
  cases condition <;> cases increment <;>
    simp [rounds, Stmt.allVisits, Stmt.visits, Stmt.after, stays, or_imp, forall_and]

/-- The tree has the body and the increment in a scope of their own, if there is an increment. -/
def Place.inRound (p : Place) (body : Stmt) : Option Expr → Place
  | none => p
  | some increment => p.enter .empty (.block [body, .expression increment])

theorem ForLoop.visits_tree {P : Visit → Prop} {p : Place} {condition increment : Option Expr}
    {body : Stmt} (stays : ∀ q, body.after q = q)
    (all : ∀ v ∈ (Grammar.forLoop none condition increment body).visits p, P v) :
    (∀ e ∈ condition, ∀ v ∈ e.visits p, P v) ∧
      (∀ v ∈ body.visits (p.inRound body increment), P v) ∧
      ∀ e ∈ increment, ∀ v ∈ e.visits (p.inRound body increment), P v := by
  rw [forLoop_none] at all
  obtain ⟨inCondition, inRound⟩ := List.forall_mem_append.1 all
  refine ⟨?_, ?_⟩
  · rintro e rfl
    exact inCondition
  · cases increment with
    | none => exact ⟨inRound, nofun⟩
    | some e =>
      obtain ⟨inBody, inIncrement⟩ := List.forall_mem_append.1 inRound
      -- The body declares nothing, so the increment is visited from where the body is.
      rw [stays] at inIncrement
      refine ⟨inBody, ?_⟩
      rintro _ ⟨⟩ v visited
      exact inIncrement v (List.mem_append_left _ visited)

section Clauses

variable {V : Versions} {r : Nat → Nat} {l : Ladder} {p p' : Place}

theorem Place.Aligned.inRound (aligned : p.Aligned l p') (regular : p.IsRegular) (body : Stmt)
    (increment : Option Expr) : (p.inRound body increment).Aligned (l.round increment) p' := by
  cases increment with
  | none => exact aligned
  | some e => exact .left regular.head_super aligned

theorem ForLoop.rounds_shift (aligned : p.Aligned l p') (regular : p.IsRegular)
    {condition increment : Option Expr} {body : Stmt} (plain : body.declared? = none)
    (placed : body.WellPlaced)
    (known : ∀ v ∈ (Grammar.forLoop none condition increment body).visits p, v.Known V.distances)
    (known' : ∀ v ∈ Stmt.allVisits p' (rounds (condition.map (Expr.renumber r))
      (increment.map (Expr.renumber r)) (body.renumber r)), V.distances'.At v) :
    (∀ e ∈ condition, e.Shifts V r l) ∧ body.Shifts V r (l.round increment) ∧
      ∀ e ∈ increment, e.Shifts V r (l.round increment) := by
  have stays : ∀ q : Place, body.after q = q :=
    fun q => Stmt.after_of_not_declared q body placed plain
  obtain ⟨inCondition, inBody, inIncrement⟩ := visits_tree stays known
  obtain ⟨inCondition', inBody', inIncrement'⟩ :=
    (visits_rounds ((Stmt.after_renumber body p').trans (stays p'))).1 known'
  have inside := aligned.inRound regular body increment
  refine ⟨fun e here => ?_, ?_, fun e here => ?_⟩
  · exact e.shifts_of_aligned aligned (inCondition e here)
      (inCondition' _ (Option.mem_map_of_mem _ here))
  · exact Stmt.shifts_of_aligned inside body placed (.inl plain) inBody inBody'
  · exact e.shifts_of_aligned inside (inIncrement e here)
      (inIncrement' _ (Option.mem_map_of_mem _ here))

/-- The body of a well placed tree is well placed. -/
theorem ForLoop.wellPlaced_body {condition increment : Option Expr} {body : Stmt}
    (placed : (Grammar.forLoop none condition increment body).WellPlaced) : body.WellPlaced := by
  rw [forLoop_none, Stmt.WellPlaced] at placed
  cases increment with
  | none => exact placed.2
  | some e => exact placed.2.1

theorem Stmt.spelled_of_known {D : Distances} {s : Stmt} (known : ∀ v ∈ s.visits p, v.Known D) :
    ∀ x ∈ s.subjects, x.Spelled := by
  rw [← s.map_subject_visits p]
  exact List.forall_mem_map.2 fun v visited => (known v visited).spelled

/-- What the resolver finds for the tree and what it finds for the parts in one scope. -/
theorem ForLoop.shifts_of_known {c : ForLoop} (regular : p.IsRegular) (placed : c.tree.WellPlaced)
    (known : ∀ v ∈ c.tree.visits p, v.Known V.distances)
    (known' : ∀ v ∈ (Stmt.block (c.renumber r).parts).visits p, V.distances'.At v) :
    c.Shifts V r [] := by
  obtain ⟨initializer, condition, increment, body, plain⟩ := c
  cases initializer with
  | none =>
    -- Without an initializer the tree opens no scope of its own, while the parts always have one:
    -- the scope on the right is a rung without a partner.
    have aligned : p.Aligned [.right] (p.enter .empty
        (.block (ForLoop.renumber r ⟨none, condition, increment, body, plain⟩).parts)) :=
      .right regular.head_super (.outside _)
    obtain ⟨conditions, bodies, increments⟩ :=
      rounds_shift aligned regular plain (wellPlaced_body placed) known known'
    exact ⟨nofun, conditions, bodies, increments⟩
  | some first =>
    obtain ⟨placedFirst, placedLoop, -⟩ := placed
    obtain ⟨inFirst, inLoop⟩ := List.forall_mem_append.1 known
    obtain ⟨inFirst', inRounds'⟩ := List.forall_mem_append.1 known'
    rw [Stmt.after_renumber] at inRounds'
    -- With an initializer both have a scope for it, in which the loop variable is declared.
    have aligned := (Place.Aligned.refl p).enter .empty
      (.block [first, Grammar.forLoop none condition increment body])
      (.block (ForLoop.renumber r ⟨some first, condition, increment, body, plain⟩).parts)
    have inside : (p.enter .empty
        (.block [first, Grammar.forLoop none condition increment body])).IsRegular :=
      .block .empty regular
    have regularInside := Stmt.after_regular placedFirst (Stmt.spelled_of_known inFirst) inside
    obtain ⟨conditions, bodies, increments⟩ := rounds_shift (aligned.after .here placedFirst)
      regularInside plain (wellPlaced_body placedLoop)
      (fun v visited => inLoop v (List.mem_append_left _ visited)) inRounds'
    refine ⟨?_, conditions, bodies, increments⟩
    rintro _ ⟨⟩
    exact Stmt.shifts_of_aligned aligned first placedFirst (.inr .here) inFirst inFirst'

end Clauses

end Lox
