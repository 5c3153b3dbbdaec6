import Lox.Proofs.Evaluation.Operators
import Lox.Proofs.Returns.Calls

/-!
# Watched evaluation

The resolver looks at a `return` in the context of the innermost function around it, and the run comes to
it in a call of that function. So the `return` that ends a statement is one that lies in the statement
itself, and an expression ends in none.
-/

namespace Lox

/-! ## Operators -/

theorem Value.IsScalar.proper {v : Value} (scalar : v.IsScalar) (h : Heap) : v.Proper h := by
  cases v with
  | function f => exact scalar.elim
  | _ => trivial

namespace WatchedRun

open NotedRun

variable {w : Watched} {R : Stmt → Value → Prop}

theorem operation_settles (operator : Occurrence) {result : Except RuntimeFault Value}
    (proper : ∀ v, result = .ok v → v.Proper w.machine.heap) :
    Settles w (Run.operation operator result) R fun h v => v.Proper h := by
  cases result with
  | ok value => exact .pure (proper value rfl)
  | error fault => exact .fail operator fault

/-! ## Expressions and statements -/

section Step

variable {loops depth : Nat}
  (evaluates : ∀ e, e.Permitted → ∀ R w,
    Settles w (NotedRun.evaluate Episode.scribe loops depth e) R fun h v => v.Proper h)
  (executes : ∀ kind s, s.Permitted kind → ∀ w,
    Settles w (NotedRun.execute Episode.scribe loops depth s) (Raises kind s) fun _ _ => True)

include evaluates in
theorem assignProperty_settles {object : Value} (key : Occurrence) {value : Expr}
    (permitted : value.Permitted) :
    Settles w (assignProperty object key (NotedRun.evaluate Episode.scribe loops depth value)) R
      fun h v => v.Proper h := by
  cases object with
  | «instance» i =>
    apply (evaluates value permitted R w).bind
    intro v w₁ _ proper
    apply (Settles.lift (Run.Keeps.setField i key.name proper)).bind
    intro _ w₂ leads _
    exact .pure (leads.machine.heap.extended.proper proper)
  | _ => exact .fail key _

include evaluates executes in
theorem evaluate_succ_settles {e : Expr} (permitted : e.Permitted) :
    Settles w (NotedRun.evaluate Episode.scribe loops (depth + 1) e) R fun h v => v.Proper h := by
  obtain ⟨p, passed⟩ := permitted
  rw [NotedRun.evaluate.eq_def]
  cases e with
  | literal value => exact .pure ((Value.ofLiteral_scalar value).proper _)
  | grouping inner => exact evaluates inner ⟨p, passed⟩ R w
  | name mention => exact .mention .variable mention (.lift (Run.lookUp_keeps mention))
  | assign mention value =>
    obtain ⟨inValue, target⟩ := List.forall_mem_append.1 passed
    -- A program assigns to no keyword, so that a method keeps the instance that it is bound to.
    have ordinary : IsOrdinary mention.name := (target _ (List.mem_singleton_self _)).spelled
    apply (evaluates value ⟨p, inValue⟩ R w).bind
    intro v w₁ _ proper
    apply Settles.mention
    apply (Settles.lift (Run.assign_keeps ordinary proper)).bind
    intro _ w₂ leads _
    exact .pure (leads.machine.heap.extended.proper proper)
  | unary operator operand =>
    apply (evaluates operand ⟨p, passed⟩ R w).bind
    intro v w₁ _ _
    exact operation_settles operator fun _ result => (unaryOperation_scalar result).proper _
  | binary left operator right =>
    obtain ⟨inLeft, inRight⟩ := List.forall_mem_append.1 passed
    apply (evaluates left ⟨p, inLeft⟩ R w).bind
    intro l w₁ _ _
    apply (evaluates right ⟨p, inRight⟩ R w₁).bind
    intro r w₂ _ _
    exact operation_settles operator fun _ result => (binaryOperation_scalar result).proper _
  | logical left operator right =>
    obtain ⟨inLeft, inRight⟩ := List.forall_mem_append.1 passed
    apply (evaluates left ⟨p, inLeft⟩ R w).bind
    intro l w₁ _ proper
    cases Run.decides operator.token.kind l with
    | true => exact .pure proper
    | false => exact evaluates right ⟨p, inRight⟩ R w₁
  | call callee paren arguments =>
    obtain ⟨inCallee, inArguments⟩ := List.forall_mem_append.1 passed
    have each : ∀ a ∈ arguments, a.Permitted := fun a => Expr.permitted_of_mem inArguments
    apply (evaluates callee ⟨p, inCallee⟩ R w).bind
    intro f w₁ _ proper
    apply (Settles.mapM fun a member w' => evaluates a (each a member) R w').bind
    intro vs w₂ leads propers
    exact callChecked_settles executes paren (leads.machine.heap.extended.proper proper) propers
  | get object name =>
    apply (evaluates object ⟨p, passed⟩ R w).bind
    intro v w₁ _ _
    rw [Episode.scribe_ofCalls.property]
    exact .lift (Run.property_keeps v name)
  | set object name value =>
    obtain ⟨inValue, inObject⟩ := List.forall_mem_append.1 passed
    apply (evaluates object ⟨p, inObject⟩ R w).bind
    intro v w₁ _ _
    exact assignProperty_settles evaluates name ⟨p, inValue⟩
  | this keyword => exact .mention .this keyword (.lift (Run.lookUp_keeps keyword))
  | super keyword method =>
    apply Settles.mention
    rw [Episode.scribe_ofCalls.superMethod]
    exact .lift (Run.superMethod_keeps keyword method)

include executes in
theorem block_settles {kind : FunctionContext} {body : List Stmt}
    (permitted : (Stmt.block body).Permitted kind) :
    Settles w (block (NotedRun.execute Episode.scribe loops depth) body) (Raises kind (.block body))
      fun _ _ => True := by
  apply (Settles.lift Run.Keeps.current).bind
  intro outer w₁ _ _
  apply (Settles.lift (Run.Keeps.newEnvironment .empty)).bind
  intro e w₂ _ _
  apply Settles.inEnvironment
  intro w₃
  apply Settles.forM
  intro s member w₄
  apply (executes kind s (permitted.of_block member) w₄).weaken _ fun _ _ here => here
  intro statement v raises
  exact { raises with lies := .block member raises.lies }

/-- What goes on with the value of an optional part, or with `nil`. -/
theorem optional_settles {f : Value → WatchedRun Unit} (value : Option Expr) :
    (∀ e ∈ value, ∀ w', Settles w' (NotedRun.evaluate Episode.scribe loops depth e) R
      fun h v => v.Proper h) →
    (∀ (v : Value) (w' : Watched), v.Proper w'.machine.heap → (value = none → v = .nil) →
      Settles w' (f v) R fun _ _ => True) →
    Settles w
      (match value with
        | none => pure .nil >>= f
        | some e => NotedRun.evaluate Episode.scribe loops depth e >>= f) R fun _ _ => True := by
  intro evaluates rest
  cases value with
  | none => exact rest .nil w trivial fun _ => rfl
  | some e =>
    apply (evaluates e rfl w).bind
    intro v w₁ _ proper
    exact rest v w₁ proper (by simp)

/-- A `return` statement raises its value, where the resolver permits one. -/
theorem raise_settles {statement : Stmt} {v : Value} (raised : R statement v)
    (proper : v.Proper w.machine.heap) :
    Settles w (raise Episode.scribe statement v) R fun _ _ => True :=
  fun orderly settled => .returned ⟨.refl orderly, settled, rfl⟩ raised proper

include evaluates executes in
theorem execute_succ_settles {kind : FunctionContext} {s : Stmt} (permitted : s.Permitted kind) :
    Settles w (NotedRun.execute Episode.scribe loops (depth + 1) s) (Raises kind s)
      fun _ _ => True := by
  rw [NotedRun.execute.eq_def]
  cases s with
  | expression value =>
    obtain ⟨p, -, passed⟩ := permitted
    apply (evaluates value ⟨p, passed⟩ _ w).bind
    intro _ w₁ _ _
    exact .pure trivial
  | print value =>
    obtain ⟨p, -, passed⟩ := permitted
    apply (evaluates value ⟨p, passed⟩ _ w).bind
    intro v w₁ _ _
    exact .lift (.print v)
  | var name initializer =>
    obtain ⟨ordinary, inInitializer⟩ := permitted.of_var
    apply optional_settles initializer fun e member => evaluates e (inInitializer e member) _
    intro v w₁ proper _
    exact .lift (.define ordinary proper)
  | block body => exact block_settles executes permitted
  | ite condition thenBranch elseBranch =>
    obtain ⟨inCondition, inThen, inElse⟩ := permitted.of_ite
    apply (evaluates condition inCondition _ w).bind
    intro v w₁ _ _
    cases v.isTruthy with
    | true =>
      -- A `return` that lies in a branch lies in the statement as well.
      apply (executes kind thenBranch inThen w₁).weaken _ fun _ _ here => here
      intro statement v raises
      exact { raises with lies := .thenBranch raises.lies }
    | false =>
      cases elseBranch with
      | none => exact .pure trivial
      | some elseBranch =>
        apply (executes kind elseBranch (inElse elseBranch rfl) w₁).weaken _ fun _ _ here => here
        intro statement v raises
        exact { raises with lies := .elseBranch raises.lies }
  | «while» condition body =>
    obtain ⟨inCondition, inBody⟩ := permitted.of_while
    apply Settles.repeatWhile
    · intro w'
      exact (evaluates condition inCondition _ w').map fun _ _ _ => trivial
    · intro w'
      apply (executes kind body inBody w').weaken _ fun _ _ here => here
      intro statement v raises
      exact { raises with lies := .loop raises.lies }
  | function f =>
    obtain ⟨ordinary, inFunction⟩ := permitted.of_function
    exact .lift (Run.declareFunction_keeps ordinary inFunction)
  | «return» keyword value =>
    obtain ⟨inside, silent, inValue⟩ := permitted.of_return
    apply optional_settles value fun e member => evaluates e (inValue e member) _
    intro v w₁ proper empty
    exact raise_settles ⟨inside, .here, fun initializer => empty (silent initializer)⟩ proper
  | «class» name superclass methods =>
    obtain ⟨ordinary, inMethods⟩ := permitted.of_class
    dsimp only
    rw [Episode.scribe_ofCalls.declareClass]
    exact .lift (Run.declareClass_keeps ordinary superclass inMethods)

end Step

theorem evaluation_settles (loops depth : Nat) :
    (∀ e, e.Permitted → ∀ R w,
      Settles w (NotedRun.evaluate Episode.scribe loops depth e) R fun h v => v.Proper h) ∧
    ∀ kind s, s.Permitted kind → ∀ w,
      Settles w (NotedRun.execute Episode.scribe loops depth s) (Raises kind s)
        fun _ _ => True := by
  induction depth with
  | zero =>
    exact ⟨fun _ _ _ _ => .throw fun _ => by simp, fun _ _ _ _ => .throw fun _ => by simp⟩
  | succ depth inductionHypothesis =>
    obtain ⟨evaluates, executes⟩ := inductionHypothesis
    exact ⟨fun _ permitted _ _ => evaluate_succ_settles evaluates executes permitted,
      fun _ _ permitted _ => execute_succ_settles evaluates executes permitted⟩

/-! ## Programs -/

/-- How the run of a program ends, if the resolver permits it outside of functions. -/
theorem interpret_settles (loops depth : Nat) {program : Program}
    (permitted : ∀ s ∈ program, s.Permitted .outside) (orderly : w.machine.heap.Orderly)
    (settled : Settled w.notes) :
    let ended := NotedRun.interpret Episode.scribe loops depth program w
    w.machine.Leads ended.2.machine ∧ Settled ended.2.notes ∧ ended.1 ≠ .escaped .strayReturn := by
  -- Outside of functions the resolver permits no `return`, so none is raised.
  have statements : Settles w (program.forM (NotedRun.execute Episode.scribe loops depth))
      (fun _ _ => False) fun _ _ => True := by
    apply Settles.forM
    intro s member w'
    apply ((evaluation_settles loops depth).2 .outside s (permitted s member) w').weaken _
      fun _ _ here => here
    intro statement v raises
    exact raises.inside rfl
  have here := statements orderly settled
  unfold NotedRun.interpret
  generalize program.forM (NotedRun.execute Episode.scribe loops depth) w = result at here
  cases here with
  | ok leads => exact ⟨leads.machine, leads.settled, by simp⟩
  | returned _ raised => exact raised.elim
  | @stopped signal w' leads settled other =>
    refine ⟨leads, settled, ?_⟩
    cases signal with
    | returned v => exact absurd rfl (other v)
    | failed | internal | unresolvedSuper | exhausted => simp [Signal.outcome]

end WatchedRun

end Lox
