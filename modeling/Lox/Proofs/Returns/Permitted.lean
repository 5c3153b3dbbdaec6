import Lox.Proofs.Scope.Bindings

/-!
# What the resolver permits

A tree is permitted if there is a place at which the resolver finds no fault in it. Of a statement only
the kind of function around it matters here: no `return` is permitted outside of functions, and none
with a value in an initializer.
-/

namespace Lox

/-- The resolver looks at a well spelled part of a program and finds no fault. -/
structure Visit.Passed (v : Visit) : Prop where
  spelled : v.subject.Spelled
  faultless : v.faults = []

def Expr.Permitted (e : Expr) : Prop := ∃ p, ∀ v ∈ e.visits p, v.Passed

/-- The statement is permitted in a function of the given kind. -/
def Stmt.Permitted (kind : FunctionContext) (s : Stmt) : Prop :=
  ∃ p : Place, p.context.inFunction = kind ∧ ∀ v ∈ s.visits p, v.Passed

/-- The function is permitted as one of the given kind. -/
def Function.Permitted (kind : FunctionContext) (f : Function) : Prop :=
  ∃ p : Place, p.context.inFunction = kind ∧ ∀ v ∈ f.visits p, v.Passed

/-! ## Parts -/

theorem Expr.permitted_of_mem {p : Place} {es : List Expr}
    (passed : ∀ v ∈ Expr.allVisits p es, v.Passed) {e : Expr} (member : e ∈ es) :
    e.Permitted :=
  ⟨p, fun v visited => passed v (Expr.visits_sub_allVisits p member v visited)⟩

theorem Stmt.permitted_of_mem {p : Place} {body : List Stmt}
    (passed : ∀ v ∈ Stmt.allVisits p body, v.Passed) {s : Stmt} (member : s ∈ body) :
    s.Permitted p.context.inFunction := by
  induction body generalizing p with
  | nil => cases member
  | cons first rest inductionHypothesis =>
    obtain ⟨here, later⟩ := List.forall_mem_append.1 passed
    rcases List.mem_cons.1 member with rfl | member
    · exact ⟨p, rfl, here⟩
    · rw [← (first.after_advances p).context]
      exact inductionHypothesis later member

theorem Function.permitted_of_mem {p : Place} {methods : List Function}
    (passed : ∀ v ∈ Function.methodVisits p methods, v.Passed) {f : Function}
    (member : f ∈ methods) : f.Permitted f.methodContext := by
  induction methods with
  | nil => cases member
  | cons first rest inductionHypothesis =>
    obtain ⟨here, later⟩ := List.forall_mem_append.1 passed
    rcases List.mem_cons.1 member with rfl | member
    · exact ⟨_, rfl, here⟩
    · exact inductionHypothesis later member

theorem Function.Permitted.of_body {f : Function} {kind : FunctionContext}
    (permitted : f.Permitted kind) {s : Stmt} (member : s ∈ f.body) : s.Permitted kind := by
  obtain ⟨p, rfl, passed⟩ := permitted
  rw [Function.visits_eq] at passed
  have inside := Stmt.permitted_of_mem (List.forall_mem_append.1 passed).2 member
  rwa [(p.enterFunction_advances f).context] at inside

namespace Stmt.Permitted

variable {kind : FunctionContext}

theorem of_block {body : List Stmt} (permitted : (Stmt.block body).Permitted kind) {s : Stmt}
    (member : s ∈ body) : s.Permitted kind := by
  obtain ⟨p, rfl, passed⟩ := permitted
  exact Stmt.permitted_of_mem passed member

theorem of_ite {condition : Expr} {thenBranch : Stmt} {elseBranch : Option Stmt}
    (permitted : (Stmt.ite condition thenBranch elseBranch).Permitted kind) :
    condition.Permitted ∧ thenBranch.Permitted kind ∧ ∀ s ∈ elseBranch, s.Permitted kind := by
  obtain ⟨p, rfl, passed⟩ := permitted
  cases elseBranch with
  | none =>
    obtain ⟨inCondition, inThen⟩ := List.forall_mem_append.1 passed
    exact ⟨⟨p, inCondition⟩, ⟨p, rfl, inThen⟩, by simp⟩
  | some elseBranch =>
    obtain ⟨inBoth, inElse⟩ := List.forall_mem_append.1 passed
    obtain ⟨inCondition, inThen⟩ := List.forall_mem_append.1 inBoth
    refine ⟨⟨p, inCondition⟩, ⟨p, rfl, inThen⟩, ?_⟩
    rintro _ ⟨⟩
    exact ⟨_, congrArg _ (thenBranch.after_advances p).context, inElse⟩

theorem of_while {condition : Expr} {body : Stmt}
    (permitted : (Stmt.while condition body).Permitted kind) :
    condition.Permitted ∧ body.Permitted kind := by
  obtain ⟨p, rfl, passed⟩ := permitted
  obtain ⟨inCondition, inBody⟩ := List.forall_mem_append.1 passed
  exact ⟨⟨p, inCondition⟩, ⟨p, rfl, inBody⟩⟩

theorem of_var {name : Token} {initializer : Option Expr}
    (permitted : (Stmt.var name initializer).Permitted kind) :
    IsOrdinary name.lexeme ∧ ∀ e ∈ initializer, e.Permitted := by
  obtain ⟨p, -, passed⟩ := permitted
  cases initializer with
  | none => exact ⟨(passed _ (List.mem_singleton_self _)).spelled, by simp⟩
  | some initializer =>
    obtain ⟨declaration, inInitializer⟩ := List.forall_mem_cons.1 passed
    refine ⟨declaration.spelled, ?_⟩
    rintro _ ⟨⟩
    exact ⟨_, inInitializer⟩

theorem of_function {f : Function} (permitted : (Stmt.function f).Permitted kind) :
    IsOrdinary f.name.lexeme ∧ f.Permitted .function := by
  obtain ⟨p, -, passed⟩ := permitted
  obtain ⟨declaration, inFunction⟩ := List.forall_mem_cons.1 passed
  exact ⟨declaration.spelled, _, rfl, inFunction⟩

theorem of_class {name : Occurrence} {superclass : Option Occurrence} {methods : List Function}
    (permitted : (Stmt.class name superclass methods).Permitted kind) :
    IsOrdinary name.name ∧ ∀ f ∈ methods, f.Permitted f.methodContext := by
  obtain ⟨p, -, passed⟩ := permitted
  obtain ⟨header, inMethods⟩ := List.forall_mem_append.1 passed
  obtain ⟨declaration, -⟩ := List.forall_mem_cons.1 header
  exact ⟨declaration.spelled, fun _ => Function.permitted_of_mem inMethods⟩

theorem of_return {keyword : Token} {value : Option Expr}
    (permitted : (Stmt.return keyword value).Permitted kind) :
    kind ≠ .outside ∧ (kind = .initializer → value = none) ∧ ∀ e ∈ value, e.Permitted := by
  obtain ⟨p, rfl, passed⟩ := permitted
  cases value with
  | none =>
    have faultless := (passed _ (List.mem_singleton_self _)).faultless
    refine ⟨fun outside => ?_, fun _ => rfl, by simp⟩
    simp [Visit.faults, outside] at faultless
  | some value =>
    obtain ⟨result, inValue⟩ := List.forall_mem_cons.1 passed
    have faultless := result.faultless
    refine ⟨fun outside => ?_, fun initializer => ?_, ?_⟩
    · simp [Visit.faults, outside] at faultless
    · simp [Visit.faults, initializer] at faultless
    · rintro _ ⟨⟩
      exact ⟨p, inValue⟩

end Stmt.Permitted

/-- The resolver permits the statements of an accepted program outside of functions. -/
theorem Program.Accepted.permitted {first last : Nat} {program : Program}
    (accepted : program.Accepted first last) {s : Stmt} (member : s ∈ program) :
    s.Permitted .outside := by
  have passed : ∀ v ∈ programVisits program, v.Passed := by
    intro v visited
    refine ⟨accepted.read.spelled v.subject ?_, accepted.faultless v visited⟩
    rw [← programVisits_subjects]
    exact List.mem_map_of_mem visited
  exact Stmt.permitted_of_mem passed member

end Lox
