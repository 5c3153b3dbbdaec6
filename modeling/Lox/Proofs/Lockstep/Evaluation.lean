import Lox.Proofs.Evaluation.Operators
import Lox.Proofs.Lockstep.Calls

/-!
# Evaluation in step

By induction on the depth, every expression and every statement that the resolver accepted goes in step,
wherever its place is. A branch and the body of a loop declare nothing, so that a place is left as it was.
-/

namespace Lox

open Lexical (CellId Names Store LexicalRun)

variable {V : Visit → Prop} {D : Distances}

/-! ## Scalars -/

theorem Value.IsScalar.fits {value : Value} (scalar : value.IsScalar) (W : World) :
    W.Fits value := by
  cases value with
  | nil | bool | number | string => trivial
  | native | function | «class» | «instance» => exact scalar.elim

/-! ## Expressions -/

/-- Each expression that may run goes in step. -/
def Evaluates (V : Visit → Prop) (D : Distances) (evaluate : Expr → TracedRun Value)
    (evaluate' : Names → Expr → LexicalRun Value) : Prop :=
  ∀ (j : Joint V D) (p : Place) (names : Names) (e : Expr), j.Stands p names →
    (∀ v ∈ e.visits p, V v) →
    j.Lockstep none (evaluate e) (evaluate' names e) fun j' a b => j'.Same a b

theorem Evaluates.all {evaluate : Expr → TracedRun Value}
    {evaluate' : Names → Expr → LexicalRun Value} (evaluates : Evaluates V D evaluate evaluate')
    {j : Joint V D} {p : Place} {names : Names} (stands : j.Stands p names) {es : List Expr}
    (visited : ∀ v ∈ Expr.allVisits p es, V v) :
    j.Lockstep none (es.mapM evaluate) (es.mapM (evaluate' names)) fun j' as bs =>
      bs = as ∧ ∀ a ∈ as, j'.world.Fits a := by
  have steps := Joint.Lockstep.mapM (o := none) (f := evaluate) (g := evaluate' names)
    (fun k : Joint V D => k.Stands p names) World.Fits
    (fun _ _ _ later fits => later.fits fits) es
    (fun e member k stands => (evaluates k p names e stands fun v here =>
      visited v (Expr.visits_sub_allVisits p member v here)).mono
        fun a b k' before same => ⟨same, before.stands stands⟩) stands
  exact steps.mono fun _ _ _ _ both => both.1

/-- A mention that may be read: of a variable whose value is there, or of `this`. -/
theorem Joint.mention_lockstep (ruled : Ruled V D) {j : Joint V D} {p : Place} {names : Names}
    (stands : j.Stands p names) {form : MentionForm} {mention : Occurrence}
    (visited : V ⟨.mention form mention, p⟩) (read : p.inOwnInitializer mention.name = false) :
    j.Lockstep none
      (do
        NotedRun.note Moment.scribe (.mention form mention)
        NotedRun.lift (Run.lookUp mention))
      (LexicalRun.lookUp names mention) fun j' a b => j'.Same a b := by
  have at' : Visit.At mention p form _ := .mention form
  exact .observe ruled stands at' visited fun j' _ stands' _ =>
    j'.lookUp_lockstep stands' (at'.distance ruled visited) read

section Expressions

variable {loops depth : Nat} (ruled : Ruled V D)
  (evaluates : Evaluates V D (NotedRun.evaluate Moment.scribe loops depth)
    (LexicalRun.evaluate loops depth))
  (executes : Executes V D (NotedRun.execute Moment.scribe loops depth)
    (LexicalRun.execute loops depth))
include ruled evaluates executes

theorem evaluates_succ :
    Evaluates V D (NotedRun.evaluate Moment.scribe loops (depth + 1))
      (LexicalRun.evaluate loops (depth + 1)) := by
  intro j p names e stands visited
  rw [NotedRun.evaluate.eq_def, Lexical.LexicalRun.evaluate.eq_def]
  dsimp only
  cases e with
  | literal value => exact .pure ⟨rfl, (Value.ofLiteral_scalar value).fits j.world⟩
  | grouping inner => exact evaluates j p names inner stands visited
  | name mention =>
    have visitedHere := visited _ (List.mem_singleton_self _)
    exact j.mention_lockstep ruled stands visitedHere
      ((Visit.At.mention .variable).read ruled visitedHere rfl)
  | assign mention value =>
    -- The target is visited after the value, and it is looked up in the state that the value leaves.
    obtain ⟨visitedValue, visitedHere⟩ := List.forall_mem_append.1 visited
    replace visitedHere := visitedHere _ (List.mem_singleton_self _)
    refine (evaluates j p names value stands visitedValue).bind fun _ v j₁ before₁ reached => ?_
    obtain ⟨rfl, fits⟩ := reached
    refine .observe ruled (before₁.stands stands) (.mention .assignment) visitedHere
      fun j₂ before₂ stands₂ noted => ?_
    refine (j₂.assign_lockstep ruled stands₂ visitedHere noted (before₂.world.fits fits)).bind
      fun _ _ j₃ before₃ _ => ?_
    exact .pure ⟨rfl, before₃.world.fits (before₂.world.fits fits)⟩
  | unary operator operand =>
    refine (evaluates j p names operand stands visited).bind fun _ v j₁ _ reached => ?_
    obtain ⟨rfl, fits⟩ := reached
    exact .operation fun value result => ⟨rfl, (unaryOperation_scalar result).fits j₁.world⟩
  | binary left operator right =>
    obtain ⟨visitedLeft, visitedRight⟩ := List.forall_mem_append.1 visited
    refine (evaluates j p names left stands visitedLeft).bind fun _ l j₁ before₁ reached => ?_
    obtain ⟨rfl, _⟩ := reached
    refine (evaluates j₁ p names right (before₁.stands stands) visitedRight).bind
      fun _ r j₂ _ reached => ?_
    obtain ⟨rfl, _⟩ := reached
    exact .operation fun value result => ⟨rfl, (binaryOperation_scalar result).fits j₂.world⟩
  | logical left operator right =>
    obtain ⟨visitedLeft, visitedRight⟩ := List.forall_mem_append.1 visited
    refine (evaluates j p names left stands visitedLeft).bind fun _ l j₁ before₁ reached => ?_
    obtain ⟨rfl, fits⟩ := reached
    cases Run.decides operator.token.kind l with
    | true => exact .pure ⟨rfl, fits⟩
    | false => exact evaluates j₁ p names right (before₁.stands stands) visitedRight
  | call callee paren arguments =>
    obtain ⟨visitedCallee, visitedArguments⟩ := List.forall_mem_append.1 visited
    refine (evaluates j p names callee stands visitedCallee).bind
      fun _ f j₁ before₁ reached => ?_
    obtain ⟨rfl, fits⟩ := reached
    refine (evaluates.all (before₁.stands stands) visitedArguments).bind
      fun _ vs j₂ before₂ reached => ?_
    obtain ⟨rfl, fit⟩ := reached
    exact j₂.callChecked_lockstep ruled executes fit paren (before₂.world.fits fits)
  | get object name =>
    refine (evaluates j p names object stands visited).bind fun _ v j₁ _ reached => ?_
    obtain ⟨rfl, fits⟩ := reached
    exact j₁.property_lockstep fits name
  | set object name value =>
    obtain ⟨visitedValue, visitedObject⟩ := List.forall_mem_append.1 visited
    refine (evaluates j p names object stands visitedObject).bind
      fun _ v j₁ before₁ reached => ?_
    obtain ⟨rfl, fits⟩ := reached
    exact j₁.assignProperty_lockstep fits name
      (evaluates j₁ p names value (before₁.stands stands) visitedValue)
  | this keyword =>
    -- No declaration is named `this`, so the keyword is not read in an initializer of its own.
    have visitedHere := visited _ (List.mem_singleton_self _)
    have lawful := ruled.lawful _ visitedHere
    have named : keyword.name = "this" := lawful.spelled
    exact j.mention_lockstep ruled stands visitedHere
      (lawful.regular.inOwnInitializer fun ordinary => ordinary.1 named)
  | super keyword method =>
    have visitedHere := visited _ (List.mem_singleton_self _)
    exact .observe ruled stands (.mention .super) visitedHere fun j₁ _ stands₁ _ =>
      j₁.superMethod_lockstep ruled stands₁ visitedHere method

end Expressions

/-! ## Statements -/

/-- Where nothing was declared, the names in scope are those from before. -/
theorem World.Stands.back {W W' : World} {o : Option EnvironmentId} {e : EnvironmentId} {p : Place}
    {names names' : Names} (stands : W.Stands e p names) (later : W.Extends o W')
    (stands' : W'.Stands e p names') : W'.Stands e p names :=
  ⟨stands.scope.mono later, stands.global, stands'.exact, stands.tail⟩

/-- A branch or the body of a loop, which declares nothing. -/
theorem Executes.silent {execute : Stmt → TracedRun Unit}
    {execute' : Names → Stmt → LexicalRun Names} (executes : Executes V D execute execute')
    {j : Joint V D} {p : Place} {names : Names} {s : Stmt} (stands : j.Stands p names)
    (settled : p.Settled) (placed : s.WellPlaced) (silent : s.declared? = none)
    (visited : ∀ v ∈ s.visits p, V v) {γ : Type} (c : γ) :
    j.Lockstep (some j.current) (execute s)
      (do
        let _ ← execute' names s
        return c) fun j' _ c' => c' = c ∧ j'.Stands p names := by
  have steps := executes j p names s stands settled placed visited
  rw [Stmt.after_of_not_declared p s placed silent] at steps
  refine steps.returning fun _ names' j' before stands' => ⟨rfl, ?_⟩
  rw [Joint.Stands, before.current] at stands' ⊢
  exact World.Stands.back stands before.world stands'

section Statements

variable {loops depth : Nat} (ruled : Ruled V D)
  (evaluates : Evaluates V D (NotedRun.evaluate Moment.scribe loops depth)
    (LexicalRun.evaluate loops depth))
  (executes : Executes V D (NotedRun.execute Moment.scribe loops depth)
    (LexicalRun.execute loops depth))
  {j : Joint V D} {p : Place} {names : Names} (stands : j.Stands p names)

include ruled evaluates stands in
theorem var_lockstep {name : Token} {initializer : Option Expr}
    (visited : ∀ v ∈ (Stmt.var name initializer).visits p, V v) :
    j.Lockstep (some j.current)
      (NotedRun.execute Moment.scribe loops (depth + 1) (.var name initializer))
      (LexicalRun.execute loops (depth + 1) names (.var name initializer)) fun j' _ names' =>
        j'.Stands (p.declareComplete name) names' := by
  rw [NotedRun.execute.eq_def, Lexical.LexicalRun.execute.eq_def]
  dsimp only
  have visitedHere : V ⟨.declaration name, p⟩ := by
    cases initializer <;> exact visited _ List.mem_cons_self
  have accepts := ruled.accepts visitedHere
  -- The value is there by then, but the variable is declared before its initializer is resolved.
  have declared : ∀ v (j₁ : Joint V D), j.Before none j₁ → j₁.world.Fits v →
      j₁.Lockstep (some j.current) (NotedRun.lift (Run.define name.lexeme v))
        (LexicalRun.declare names name.lexeme v) fun j' _ names' =>
          j'.Stands (p.declareComplete name) names' := by
    intro v j₁ before₁ fits
    rw [← before₁.current]
    exact (j₁.declare_lockstep accepts ((before₁.stands stands).declare accepts) fits).mono
      fun _ _ _ _ both => both.1
  cases initializer with
  | none => exact (declared .nil j (.refl j) trivial).of_eq rfl rfl
  | some e =>
    have visitedValue : ∀ v ∈ e.visits (p.declare name), V v :=
      fun v here => visited v (List.mem_cons_of_mem _ here)
    refine (evaluates j _ names e (World.Stands.declare stands accepts) visitedValue).andThen
      fun _ v j₁ before₁ reached => ?_
    obtain ⟨rfl, fits⟩ := reached
    exact declared v j₁ before₁ fits

include evaluates stands in
theorem return_lockstep {keyword : Token} {value : Option Expr}
    (visited : ∀ v ∈ (Stmt.return keyword value).visits p, V v) :
    j.Lockstep (some j.current)
      (NotedRun.execute Moment.scribe loops (depth + 1) (.return keyword value))
      (LexicalRun.execute loops (depth + 1) names (.return keyword value)) fun j' _ names' =>
        j'.Stands p names' := by
  rw [NotedRun.execute.eq_def, Lexical.LexicalRun.execute.eq_def]
  dsimp only
  cases value with
  | none =>
    have fair : Signal.Fair j.world (.returned .nil) := trivial
    exact Joint.Lockstep.of_eq (.throw fair) rfl rfl
  | some e =>
    have visitedValue : ∀ v ∈ e.visits p, V v := fun v here =>
      visited v (List.mem_cons_of_mem _ here)
    refine (evaluates j p names e stands visitedValue).andThen fun _ v j₁ _ reached => ?_
    obtain ⟨rfl, fits⟩ := reached
    exact .throw fits

section Settled

variable (settled : p.Settled)
include executes stands settled

/-- A branch of an `if`, after its condition. -/
theorem branch_lockstep {s : Stmt} {j₁ : Joint V D} (before₁ : j.Before none j₁)
    (silent : s.declared? = none) (placed : s.WellPlaced) (visited : ∀ v ∈ s.visits p, V v) :
    j₁.Lockstep (some j.current) (NotedRun.execute Moment.scribe loops depth s)
      (do
        let _ ← LexicalRun.execute loops depth names s
        return names) fun j' _ names' => j'.Stands p names' := by
  rw [← before₁.current]
  exact (executes.silent (before₁.stands stands) settled placed silent visited names).mono
    fun _ _ _ _ reached => reached.1 ▸ reached.2

include evaluates in
theorem ite_lockstep {condition : Expr} {thenBranch : Stmt} {elseBranch : Option Stmt}
    (placed : (Stmt.ite condition thenBranch elseBranch).WellPlaced)
    (visited : ∀ v ∈ (Stmt.ite condition thenBranch elseBranch).visits p, V v) :
    j.Lockstep (some j.current)
      (NotedRun.execute Moment.scribe loops (depth + 1) (.ite condition thenBranch elseBranch))
      (LexicalRun.execute loops (depth + 1) names (.ite condition thenBranch elseBranch))
      fun j' _ names' => j'.Stands p names' := by
  rw [NotedRun.execute.eq_def, Lexical.LexicalRun.execute.eq_def]
  dsimp only
  cases elseBranch with
  | none =>
    rw [Stmt.WellPlaced] at placed
    rw [Stmt.visits] at visited
    obtain ⟨visitedCondition, visitedThen⟩ := List.forall_mem_append.1 visited
    refine (evaluates j p names condition stands visitedCondition).andThen
      fun _ v j₁ before₁ reached => ?_
    obtain ⟨rfl, _⟩ := reached
    by_cases truthy : v.isTruthy = true
    · simp only [if_pos truthy]
      exact branch_lockstep executes stands settled before₁ placed.1 placed.2 visitedThen
    · simp only [if_neg truthy]
      exact .pure (before₁.stands stands)
  | some otherwise =>
    rw [Stmt.WellPlaced] at placed
    obtain ⟨⟨silentThen, placedThen⟩, silentElse, placedElse⟩ := placed
    -- A branch declares nothing, so the other one is visited from the same place.
    rw [Stmt.visits, Stmt.after_of_not_declared p thenBranch placedThen silentThen] at visited
    obtain ⟨visitedBoth, visitedElse⟩ := List.forall_mem_append.1 visited
    obtain ⟨visitedCondition, visitedThen⟩ := List.forall_mem_append.1 visitedBoth
    refine (evaluates j p names condition stands visitedCondition).andThen
      fun _ v j₁ before₁ reached => ?_
    obtain ⟨rfl, _⟩ := reached
    by_cases truthy : v.isTruthy = true
    · simp only [if_pos truthy]
      exact branch_lockstep executes stands settled before₁ silentThen placedThen visitedThen
    · simp only [if_neg truthy]
      exact branch_lockstep executes stands settled before₁ silentElse placedElse visitedElse

include evaluates in
theorem while_lockstep {condition : Expr} {body : Stmt}
    (placed : (Stmt.while condition body).WellPlaced)
    (visited : ∀ v ∈ (Stmt.while condition body).visits p, V v) :
    j.Lockstep (some j.current)
      (NotedRun.execute Moment.scribe loops (depth + 1) (.while condition body))
      (LexicalRun.execute loops (depth + 1) names (.while condition body)) fun j' _ names' =>
        j'.Stands p names' := by
  rw [NotedRun.execute.eq_def, Lexical.LexicalRun.execute.eq_def]
  dsimp only
  rw [Stmt.WellPlaced] at placed
  rw [Stmt.visits] at visited
  obtain ⟨silent, placedBody⟩ := placed
  obtain ⟨visitedCondition, visitedBody⟩ := List.forall_mem_append.1 visited
  -- The loop is always back in the same environment, with the same names in scope.
  refine (Joint.Lockstep.repeatWhile (fun k : Joint V D => k.Stands p names ∧ k.current = j.current)
    ?_ ?_ loops ⟨stands, rfl⟩).returning fun _ _ _ _ reached => reached.1
  · rintro k ⟨stands, current⟩
    refine ((evaluates k p names condition stands visitedCondition).map
      fun _ v j' before reached => ?_).weaken
    exact ⟨by rw [reached.1], before.stands stands, before.current.trans current⟩
  · rintro k ⟨stands, current⟩
    have steps := executes.silent stands settled placedBody silent visitedBody ()
    rw [current] at steps
    exact steps.mono fun _ _ j' before reached => ⟨reached.2, before.current.trans current⟩

end Settled

include ruled evaluates executes in
theorem executes_succ :
    Executes V D (NotedRun.execute Moment.scribe loops (depth + 1))
      (LexicalRun.execute loops (depth + 1)) := by
  intro j p names s stands settled placed visited
  cases s with
  | expression value =>
    rw [NotedRun.execute, Lexical.LexicalRun.execute]
    exact (evaluates j p names value stands visited).andThen fun _ _ j₁ before₁ _ =>
      .pure (before₁.stands stands)
  | print value =>
    rw [NotedRun.execute, Lexical.LexicalRun.execute]
    refine (evaluates j p names value stands visited).andThen fun _ v j₁ before₁ reached => ?_
    obtain ⟨rfl, _⟩ := reached
    exact ((j₁.print_lockstep v).returning fun _ _ j₂ before₂ _ =>
      before₂.stands (before₁.stands stands)).weaken
  | var name initializer => exact var_lockstep ruled evaluates stands visited
  | block body =>
    rw [NotedRun.execute, Lexical.LexicalRun.execute]
    rw [Stmt.WellPlaced] at placed
    rw [Stmt.visits] at visited
    refine ((j.block_lockstep stands settled fun k names' stands' => ?_).returning
      fun _ _ j₁ before₁ _ => before₁.stands stands).weaken
    exact (executes.all stands' (settled.enter _ (by rintro _ ⟨⟩)) placed visited).mono
      fun _ _ _ _ _ => trivial
  | ite condition thenBranch elseBranch =>
    rw [Stmt.after_of_not_declared p (.ite condition thenBranch elseBranch) placed rfl]
    exact ite_lockstep evaluates executes stands settled placed visited
  | «while» condition body =>
    rw [Stmt.after_of_not_declared p (.while condition body) placed rfl]
    exact while_lockstep evaluates executes stands settled placed visited
  | function declaration =>
    rw [NotedRun.execute, Lexical.LexicalRun.execute]
    rw [Stmt.WellPlaced] at placed
    exact j.declareFunction_lockstep ruled stands settled visited placed
  | «return» keyword value => exact return_lockstep evaluates stands visited
  | «class» name superclass methods =>
    rw [NotedRun.execute, Lexical.LexicalRun.execute]
    rw [Stmt.WellPlaced] at placed
    exact j.declareClass_lockstep ruled stands settled ⟨name, superclass, methods⟩ visited placed

end Statements

/-! ## Every depth -/

theorem evaluation_lockstep (ruled : Ruled V D) (loops depth : Nat) :
    Evaluates V D (NotedRun.evaluate Moment.scribe loops depth)
        (LexicalRun.evaluate loops depth) ∧
      Executes V D (NotedRun.execute Moment.scribe loops depth)
        (LexicalRun.execute loops depth) := by
  induction depth with
  | zero =>
    refine ⟨fun j p names e _ _ => ?_, fun j p names s _ _ _ _ => ?_⟩
    · rw [NotedRun.evaluate.eq_def, Lexical.LexicalRun.evaluate.eq_def]
      exact .throw trivial
    · rw [NotedRun.execute.eq_def, Lexical.LexicalRun.execute.eq_def]
      exact .throw trivial
  | succ depth inductionHypothesis =>
    obtain ⟨evaluates, executes⟩ := inductionHypothesis
    exact ⟨evaluates_succ ruled evaluates executes, executes_succ ruled evaluates executes⟩

end Lox
