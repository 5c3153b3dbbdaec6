import Lox.Proofs.Scope.Place

/-!
# Resolution, visit by visit

The resolver is determined by the visits of a program: the faults it reports and the bindings it
records are those of the single visits, in their order, and the scopes it holds at a place are the
scopes of that place.
-/

namespace Lox

namespace Resolver

/-- The resolver at place `p` after the given visits. -/
def after (r : Resolver) (visits : List Visit) (p : Place) : Resolver :=
  { scopes := p.scopes
    errors := r.errors ++ (visits.flatMap Visit.faults).toArray
    bindings := r.bindings ++ (visits.filterMap Visit.binding?).toArray }

variable {r : Resolver} {p : Place}

@[simp] theorem after_scopes (visits : List Visit) : (r.after visits p).scopes = p.scopes := rfl

theorem after_nil (here : r.scopes = p.scopes) : r.after [] p = r := by
  cases r
  simp_all [after]

/-- One more visit adds its faults and its binding. -/
theorem after_visit (visits : List Visit) (v : Visit) :
    r.after (visits ++ [v]) p =
      { r.after visits p with
        errors := (r.after visits p).errors ++ v.faults.toArray
        bindings := (r.after visits p).bindings ++ v.binding?.toList.toArray } := by
  cases found : v.binding? <;> simp [after, found]

theorem enter_after (visits : List Visit) (scope : Scope) (origin : Origin) :
    (r.after visits p).enter scope = r.after visits (p.enter scope origin) := rfl

theorem after_withFunction (visits : List Visit) (p : Place) (kind : FunctionContext) :
    r.after visits (p.withFunction kind) = r.after visits p := rfl

theorem leave_advanced (visits : List Visit) {q : Place} {scope : Scope} {origin : Origin}
    (advances : (p.enter scope origin).Advances q) :
    (r.after visits q).leave = r.after visits p := by
  obtain ⟨scope', rfl⟩ := advances.inside
  rfl

/-! ## Declarations -/

theorem mark_after (visits : List Visit) (name : String) (complete : Bool) :
    (r.after visits p).mark name complete = r.after visits (p.mark name complete) := by
  obtain ⟨levels, context⟩ := p
  cases levels <;> rfl

theorem declare_after (visits : List Visit) (name : Token) :
    (r.after visits p).declare name =
      r.after (visits ++ [⟨.declaration name, p⟩]) (p.declare name) := by
  rw [after_visit]
  obtain ⟨levels, context⟩ := p
  cases levels with
  | nil => simp [declare, after, Place.scopes, Visit.faults, Place.declare, Place.mark]
  | cons level outer =>
    by_cases present : level.scope.contains name.lexeme = true <;>
      simp [declare, after, Place.scopes, report, mark, Visit.faults, Place.declare, Place.mark,
        present]

theorem declareComplete_after (visits : List Visit) (name : Token) :
    (r.after visits p).declareComplete name =
      r.after (visits ++ [⟨.declaration name, p⟩]) (p.declareComplete name) := by
  rw [declareComplete, declare_after, define, mark_after]
  rfl

theorem parameters_after (parameters : List Token) (visits : List Visit) :
    parameters.foldl declareComplete (r.after visits p) =
      r.after (visits ++ p.parameterVisits parameters)
        (parameters.foldl Place.declareComplete p) := by
  induction parameters generalizing visits p with
  | nil => simp [Place.parameterVisits]
  | cons name rest inductionHypothesis =>
    simp only [List.foldl_cons, declareComplete_after, inductionHypothesis, Place.parameterVisits,
      List.append_assoc, List.cons_append, List.nil_append]

/-! ## Mentions -/

theorem bind_eq (here : r.scopes = p.scopes) (form : MentionForm) (m : Occurrence) :
    r.bind form m =
      { r with
        bindings := r.bindings ++
          ((p.distance? m.name).map (⟨form, m, ·⟩) : Option Binding).toList.toArray } := by
  have same : r.distance? m.name = p.distance? m.name := by rw [distance?, here]; rfl
  rw [bind, same]
  cases p.distance? m.name <;> simp

theorem inOwnInitializer_eq (here : r.scopes = p.scopes) (name : String) :
    r.inOwnInitializer name = p.inOwnInitializer name := by
  obtain ⟨levels, context⟩ := p
  rw [inOwnInitializer, here]
  cases levels <;> rfl

theorem read_eq (here : r.scopes = p.scopes) (m : Occurrence) :
    r.read m =
      { r with
        errors := r.errors ++
          (if p.inOwnInitializer m.name then [⟨.ownInitializer, m.token⟩] else []).toArray
        bindings := r.bindings ++
          ((p.distance? m.name).map (⟨.variable, m, ·⟩) : Option Binding).toList.toArray } := by
  rw [read, inOwnInitializer_eq here]
  by_cases own : p.inOwnInitializer m.name = true
  · have reported : (r.report .ownInitializer m.token).scopes = p.scopes := here
    rw [if_pos own, if_pos own, bind_eq reported]
    simp [report]
  · rw [if_neg own, if_neg own, bind_eq here]
    simp

theorem read_after (visits : List Visit) (m : Occurrence) :
    (r.after visits p).read m = r.after (visits ++ [⟨.mention .variable m, p⟩]) p := by
  rw [after_visit, Visit.binding?_mention (by simp), read_eq (after_scopes visits)]
  rfl

theorem bind_assignment_after (visits : List Visit) (m : Occurrence) :
    (r.after visits p).bind .assignment m =
      r.after (visits ++ [⟨.mention .assignment m, p⟩]) p := by
  rw [after_visit, Visit.binding?_mention (by simp), bind_eq (after_scopes visits)]
  simp [Visit.faults]

theorem readThis_after (visits : List Visit) (m : Occurrence) :
    (r.after visits p).readThis p.context.inClass m =
      r.after (visits ++ [⟨.mention .this m, p⟩]) p := by
  rw [after_visit]
  by_cases outside : p.context.inClass = .outside
  · simp [outside, readThis, report, Visit.faults, Visit.binding?, Visit.mention?, Subject.mention?]
  · have inside : (r.after visits p).readThis p.context.inClass m =
        (r.after visits p).bind .this m := by
      cases inClass : p.context.inClass <;> simp_all [readThis]
    rw [Visit.binding?_mention fun _ => outside, inside, bind_eq (after_scopes visits)]
    simp [Visit.faults, outside]

theorem readSuper_after (visits : List Visit) (m : Occurrence) :
    (r.after visits p).readSuper p.context.inClass m =
      r.after (visits ++ [⟨.mention .super m, p⟩]) p := by
  rw [after_visit, Visit.binding?_mention (by simp)]
  cases inClass : p.context.inClass with
  | outside | baseClass =>
    rw [readSuper, bind_eq (p := p) rfl]
    simp [report, Visit.faults, inClass]
  | subclass =>
    rw [readSuper, bind_eq (p := p) rfl]
    simp [Visit.faults, inClass]

theorem checkReturn_after (visits : List Visit) (keyword : Token) (hasValue : Bool) :
    (r.after visits p).checkReturn p.context.inFunction keyword hasValue =
      r.after (visits ++ [⟨.result keyword hasValue, p⟩]) p := by
  rw [after_visit]
  cases inFunction : p.context.inFunction <;> cases hasValue <;>
    simp [checkReturn, report, inFunction, Visit.faults] <;> rfl

/-! ## Scopes of classes and functions -/

theorem readSuperclass_after (visits : List Visit) (className : Token) (m : Occurrence) :
    (let r := r.after visits p
      let r := if m.name == className.lexeme then r.report .inheritsFromItself m.token else r
      r.read m) = r.after (visits ++ [⟨.superclass className m, p⟩]) p := by
  rw [after_visit, Visit.binding?_superclass]
  by_cases self : (m.name == className.lexeme) = true
  · simp only [if_pos self]
    rw [read_eq (p := p) rfl]
    simp [Visit.faults, self, report]
  · simp only [if_neg self]
    rw [read_eq (p := p) rfl]
    simp [Visit.faults, self]

theorem enterClass_after (visits : List Visit) (text : ClassText) :
    (r.after visits p).enterClass text.name.token text.superclass =
      r.after (visits ++ ⟨.declaration text.name.token, p⟩ :: p.superclassVisits text)
        (p.enterClass text) := by
  obtain ⟨name, superclass, methods⟩ := text
  cases superclass with
  | none =>
    rw [enterClass, declareComplete_after]
    rfl
  | some parent =>
    simp only [enterClass, declareComplete_after, Place.superclassVisits]
    rw [readSuperclass_after, List.append_assoc]
    rfl

theorem leaveClass_after (visits : List Visit) (text : ClassText) :
    (r.after visits (p.enterClass text)).leaveClass text.superclass =
      r.after visits (p.declareComplete text.name.token) := by
  obtain ⟨name, superclass, methods⟩ := text
  cases superclass <;> rfl

theorem enterFunction_after (visits : List Visit) (f : Function) :
    (r.after visits p).enterFunction f.parameters =
      r.after (visits ++ (p.enter .empty (.function f)).parameterVisits f.parameters)
        (p.enterFunction f) := by
  rw [enterFunction, enter_after visits .empty (.function f), parameters_after]
  rfl

end Resolver

/-! ## Trees -/

open Resolver

mutual

theorem Expr.resolve_after {p : Place} {context : ClassContext} (same : p.context.inClass = context)
    (e : Expr) (r : Resolver) (visits : List Visit) :
    e.resolve context (r.after visits p) = r.after (visits ++ e.visits p) p := by
  cases e with
  | literal value => simp [Expr.resolve, Expr.visits]
  | grouping inner => exact Expr.resolve_after same inner r visits
  | name target => exact read_after visits target
  | assign target value =>
    rw [Expr.resolve, Expr.resolve_after same value, bind_assignment_after, Expr.visits,
      List.append_assoc]
  | unary operator operand => exact Expr.resolve_after same operand r visits
  | binary left operator right | logical left operator right =>
    rw [Expr.resolve, Expr.resolve_after same left, Expr.resolve_after same right, Expr.visits,
      List.append_assoc]
  | call callee paren arguments =>
    rw [Expr.resolve, Expr.resolve_after same callee, Expr.resolveAll_after same arguments,
      Expr.visits, List.append_assoc]
  | get object property => exact Expr.resolve_after same object r visits
  | set object property value =>
    rw [Expr.resolve, Expr.resolve_after same value, Expr.resolve_after same object, Expr.visits,
      List.append_assoc]
  | this keyword =>
    subst same
    exact readThis_after visits keyword
  | super keyword method =>
    subst same
    exact readSuper_after visits keyword

theorem Expr.resolveAll_after {p : Place} {context : ClassContext}
    (same : p.context.inClass = context) (es : List Expr) (r : Resolver) (visits : List Visit) :
    Expr.resolveAll context es (r.after visits p) = r.after (visits ++ Expr.allVisits p es) p := by
  cases es with
  | nil => simp [Expr.resolveAll, Expr.allVisits]
  | cons e rest =>
    rw [Expr.resolveAll, Expr.resolve_after same e, Expr.resolveAll_after same rest,
      Expr.allVisits, List.append_assoc]

end

mutual

theorem Stmt.resolve_after {p : Place} {context : Context} (same : p.context = context)
    (s : Stmt) (r : Resolver) (visits : List Visit) :
    s.resolve context (r.after visits p) = r.after (visits ++ s.visits p) (s.after p) := by
  have sameClass : p.context.inClass = context.inClass := congrArg _ same
  cases s with
  | expression value | print value => exact Expr.resolve_after sameClass value r visits
  | var name initializer =>
    cases initializer with
    | none => exact declareComplete_after visits name
    | some initializer =>
      have declared : (p.declare name).context.inClass = context.inClass := by
        rw [← sameClass, Place.declare, (Place.Advances.mark p _ _).context]
      rw [Stmt.resolve, declare_after, Expr.resolve_after declared, define, mark_after, Stmt.visits,
        List.append_assoc]
      rfl
  | block body =>
    have inside : (p.enter .empty (.block body)).context = context := same
    rw [Stmt.resolve, enter_after visits .empty (.block body), Stmt.resolveAll_after inside,
      leave_advanced _ (Stmt.allAfter_advances body _)]
    rfl
  | ite condition thenBranch elseBranch =>
    cases elseBranch with
    | none =>
      rw [Stmt.resolve, Expr.resolve_after sameClass, Stmt.resolve_after same, List.append_assoc]
      rfl
    | some elseBranch =>
      have afterThen := (thenBranch.after_advances p).context.trans same
      rw [Stmt.resolve, Expr.resolve_after sameClass, Stmt.resolve_after same,
        Stmt.resolve_after afterThen, List.append_assoc, List.append_assoc, ← List.append_assoc
          (condition.visits p)]
      rfl
  | «while» condition body =>
    rw [Stmt.resolve, Expr.resolve_after sameClass, Stmt.resolve_after same, List.append_assoc]
    rfl
  | function declaration =>
    -- The body is resolved in the context of a function, and the one around it comes back behind it.
    have inside : ((p.declareComplete declaration.name).withFunction .function).context =
        { context with inFunction := .function } := by
      rw [← same, ← (Place.Advances.declareComplete p declaration.name).context]
      rfl
    rw [Stmt.resolve, declareComplete_after,
      ← after_withFunction _ (p.declareComplete declaration.name) .function,
      Function.resolve_after inside, List.append_assoc]
    rfl
  | «return» keyword value =>
    subst same
    cases value with
    | none => exact checkReturn_after visits keyword false
    | some value =>
      rw [Stmt.resolve, checkReturn_after, Expr.resolve_after rfl, List.append_assoc]
      rfl
  | «class» name superclass methods =>
    have inside : (p.enterClass ⟨name, superclass, methods⟩).context = context.ofClass superclass := by
      rw [Place.enterClass_context, same]
    have entered := enterClass_after (r := r) (p := p) visits ⟨name, superclass, methods⟩
    have left := leaveClass_after (r := r) (p := p)
      (visits ++ (Stmt.class name superclass methods).visits p) ⟨name, superclass, methods⟩
    rw [Stmt.resolve, entered, Function.resolveMethods_after inside, List.append_assoc]
    exact left

theorem Stmt.resolveAll_after {p : Place} {context : Context} (same : p.context = context)
    (ss : List Stmt) (r : Resolver) (visits : List Visit) :
    Stmt.resolveAll context ss (r.after visits p) =
      r.after (visits ++ Stmt.allVisits p ss) (Stmt.allAfter p ss) := by
  cases ss with
  | nil => simp [Stmt.resolveAll, Stmt.allVisits, Stmt.allAfter]
  | cons s rest =>
    have afterFirst := (s.after_advances p).context.trans same
    rw [Stmt.resolveAll, Stmt.resolve_after same, Stmt.resolveAll_after afterFirst,
      List.append_assoc]
    rfl

theorem Function.resolve_after {p : Place} {context : Context} (same : p.context = context)
    (f : Function) (r : Resolver) (visits : List Visit) :
    f.resolve context (r.after visits p) = r.after (visits ++ f.visits p) p := by
  cases f with
  | mk name parameters body =>
    have entered := enterFunction_after (r := r) (p := p) visits (.mk name parameters body)
    have advances := Place.enterFunction_advances p (.mk name parameters body)
    have inside := advances.context.trans same
    simp only [Function.parameters] at entered
    rw [Function.resolve, entered, Stmt.resolveAll_after inside,
      leave_advanced _ (advances.trans (Stmt.allAfter_advances body _)), List.append_assoc]
    rfl

theorem Function.resolveMethods_after {p : Place} {context : Context} (same : p.context = context)
    (fs : List Function) (r : Resolver) (visits : List Visit) :
    Function.resolveMethods context fs (r.after visits p) =
      r.after (visits ++ Function.methodVisits p fs) p := by
  cases fs with
  | nil => simp [Function.resolveMethods, Function.methodVisits]
  | cons f rest =>
    have inside : (p.withFunction f.methodContext).context =
        { context with inFunction := f.methodContext } := by
      rw [← same]
      rfl
    rw [Function.resolveMethods, ← after_withFunction _ p f.methodContext,
      Function.resolve_after inside, after_withFunction, Function.resolveMethods_after same,
      List.append_assoc]
    rfl

end

/-- What the resolver finds in a program, read off the visits. -/
theorem resolve_eq (program : Program) :
    resolve program =
      { bindings := (programVisits program).filterMap Visit.binding?
        errors := (programVisits program).flatMap Visit.faults } := by
  have found := Stmt.resolveAll_after (p := .topLevel) rfl program .initial []
  rw [after_nil rfl] at found
  simp only [resolve, Context.topLevel, Place.topLevel] at found ⊢
  rw [found]
  simp [after, initial, programVisits, Place.topLevel, Context.topLevel]

end Lox
