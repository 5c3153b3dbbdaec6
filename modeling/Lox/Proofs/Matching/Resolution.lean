import Lox.Proofs.Matching.Trees
import Lox.Scope.Resolution

/-!
# Resolving programs that match

The resolver looks at the text of names only. So in matching programs it finds the same distances for
matching mentions, and the same faults at matching tokens.
-/

namespace Lox

variable {M : Matching}

/-- The same distance for matching mentions. -/
structure Binding.Matched (M : Matching) (b b' : Binding) : Prop where
  form : b'.form = b.form
  mention : M.occurrences b.mention b'.mention
  distance : b'.distance = b.distance

/-- The same fault at matching tokens. -/
structure ScopeError.Matched (M : Matching) (e e' : ScopeError) : Prop where
  fault : e'.fault = e.fault
  token : M.tokens e.token e'.token

structure Resolver.Matched (M : Matching) (r r' : Resolver) : Prop where
  scopes : r'.scopes = r.scopes
  errors : List.Forall₂ (ScopeError.Matched M) r.errors.toList r'.errors.toList
  bindings : List.Forall₂ (Binding.Matched M) r.bindings.toList r'.bindings.toList

namespace Resolver.Matched

variable {r r' : Resolver} (matched : r.Matched M r')
include matched

theorem report (fault : ScopeFault) {t t' : Token} (tokens : M.tokens t t') :
    (r.report fault t).Matched M (r'.report fault t') := by
  refine { matched with errors := ?_ }
  simp only [Resolver.report, Array.toList_push]
  exact List.rel_append matched.errors (.cons ⟨rfl, tokens⟩ .nil)

theorem enter (scope : Scope) : (r.enter scope).Matched M (r'.enter scope) :=
  { matched with scopes := congrArg (scope :: ·) matched.scopes }

theorem leave : r.leave.Matched M r'.leave :=
  { matched with scopes := congrArg List.tail matched.scopes }

theorem mark (name : String) (complete : Bool) :
    (r.mark name complete).Matched M (r'.mark name complete) := by
  rw [Resolver.mark, Resolver.mark, matched.scopes]
  cases r.scopes with
  | nil => exact matched
  | cons scope outer => exact { matched with scopes := rfl }

theorem declare {name name' : Token} (names : M.tokens name name') :
    (r.declare name).Matched M (r'.declare name') := by
  rw [Resolver.declare, Resolver.declare, matched.scopes, M.lexeme names]
  cases r.scopes with
  | nil => exact matched
  | cons scope outer =>
    dsimp only
    split
    · exact (matched.report .alreadyDeclared names).mark _ false
    · exact matched.mark _ false

theorem define {name name' : Token} (names : M.tokens name name') :
    (r.define name).Matched M (r'.define name') := by
  rw [Resolver.define, Resolver.define, M.lexeme names]
  exact matched.mark _ true

theorem declareComplete {name name' : Token} (names : M.tokens name name') :
    (r.declareComplete name).Matched M (r'.declareComplete name') :=
  (matched.declare names).define names

theorem bind (form : MentionForm) {o o' : Occurrence} (mentions : M.occurrences o o') :
    (r.bind form o).Matched M (r'.bind form o') := by
  rw [Resolver.bind, Resolver.bind, distance?, distance?, matched.scopes, M.name mentions]
  cases r.scopes.findIdx? (·.contains o.name) with
  | none => exact matched
  | some distance =>
    refine ⟨rfl, matched.errors, ?_⟩
    simp only [Array.toList_push]
    exact List.rel_append matched.bindings (.cons ⟨rfl, mentions, rfl⟩ .nil)

theorem read {o o' : Occurrence} (mentions : M.occurrences o o') :
    (r.read o).Matched M (r'.read o') := by
  have same : r'.inOwnInitializer o'.name = r.inOwnInitializer o.name := by
    rw [inOwnInitializer, inOwnInitializer, matched.scopes, M.name mentions]
  rw [Resolver.read, Resolver.read, same]
  by_cases own : r.inOwnInitializer o.name = true
  · simp only [own, if_true]
    exact (matched.report .ownInitializer (M.token _ _ mentions)).bind _ mentions
  · simp only [own]
    exact matched.bind _ mentions

theorem readThis (context : ClassContext) {o o' : Occurrence} (mentions : M.occurrences o o') :
    (r.readThis context o).Matched M (r'.readThis context o') := by
  cases context with
  | outside => exact matched.report .thisOutsideClass (M.token _ _ mentions)
  | baseClass | subclass => exact matched.bind .this mentions

theorem readSuper (context : ClassContext) {o o' : Occurrence} (mentions : M.occurrences o o') :
    (r.readSuper context o).Matched M (r'.readSuper context o') := by
  have token := M.token _ _ mentions
  cases context with
  | outside => exact (matched.report .superOutsideClass token).bind .super mentions
  | baseClass => exact (matched.report .superWithoutSuperclass token).bind .super mentions
  | subclass => exact matched.bind .super mentions

theorem checkReturn (context : FunctionContext) {keyword keyword' : Token}
    (keywords : M.tokens keyword keyword') (hasValue : Bool) :
    (r.checkReturn context keyword hasValue).Matched M
      (r'.checkReturn context keyword' hasValue) := by
  cases context with
  | outside => exact matched.report .topLevelReturn keywords
  | initializer =>
    cases hasValue with
    | true => exact matched.report .initializerReturn keywords
    | false => exact matched
  | function | method => exact matched

theorem enterClass {name name' : Token} (names : M.tokens name name')
    {superclass superclass' : Option Occurrence}
    (parents : Option.Rel M.occurrences superclass superclass') :
    (r.enterClass name superclass).Matched M (r'.enterClass name' superclass') := by
  have declared := matched.declareComplete names
  cases parents with
  | none => exact declared.enter _
  | some parent =>
    simp only [Resolver.enterClass, M.name parent, M.lexeme names]
    split
    · exact (((declared.report _ (M.token _ _ parent)).read parent).enter _).enter _
    · exact ((declared.read parent).enter _).enter _

theorem leaveClass {superclass superclass' : Option Occurrence}
    (parents : Option.Rel M.occurrences superclass superclass') :
    (r.leaveClass superclass).Matched M (r'.leaveClass superclass') := by
  cases parents with
  | none => exact matched.leave
  | some _ => exact matched.leave.leave

theorem enterFunction {parameters parameters' : List Token}
    (names : List.Forall₂ M.tokens parameters parameters') :
    (r.enterFunction parameters).Matched M (r'.enterFunction parameters') := by
  rw [Resolver.enterFunction, Resolver.enterFunction]
  have entered := matched.enter .empty
  generalize r.enter .empty = s, r'.enter .empty = s' at entered
  induction names generalizing s s' with
  | nil => exact entered
  | cons name _ inductionHypothesis => exact inductionHypothesis _ _ (entered.declareComplete name)

end Resolver.Matched

/-! ## Trees -/

mutual

theorem Expr.Matched.resolve (context : ClassContext) : ∀ {e e' : Expr}, e.Matched M e' →
    ∀ {r r' : Resolver}, r.Matched M r' → (e.resolve context r).Matched M (e'.resolve context r')
  | _, _, .literal _, _, _, matched => matched
  | _, _, .grouping inner, _, _, matched => inner.resolve context matched
  | _, _, .name target, _, _, matched => matched.read target
  | _, _, .assign target value, _, _, matched => (value.resolve context matched).bind _ target
  | _, _, .unary _ operand, _, _, matched => operand.resolve context matched
  | _, _, .binary left _ right, _, _, matched => right.resolve context (left.resolve context matched)
  | _, _, .logical left _ right, _, _, matched => right.resolve context (left.resolve context matched)
  | _, _, .call callee _ arguments, _, _, matched =>
    Expr.resolveAll_matched context arguments (callee.resolve context matched)
  | _, _, .get object _, _, _, matched => object.resolve context matched
  | _, _, .set object _ value, _, _, matched => object.resolve context (value.resolve context matched)
  | _, _, .this keyword, _, _, matched => matched.readThis context keyword
  | _, _, .super keyword _, _, _, matched => matched.readSuper context keyword

theorem Expr.resolveAll_matched (context : ClassContext) : ∀ {es es' : List Expr},
    List.Forall₂ (Expr.Matched M) es es' → ∀ {r r' : Resolver}, r.Matched M r' →
      (Expr.resolveAll context es r).Matched M (Expr.resolveAll context es' r')
  | _, _, .nil, _, _, matched => matched
  | _, _, .cons first rest, _, _, matched =>
    Expr.resolveAll_matched context rest (first.resolve context matched)

end

theorem Function.Matched.methodContext {f f' : Function} (matched : f.Matched M f') :
    f'.methodContext = f.methodContext := by
  rw [Function.methodContext, matched.isInitializer]
  rfl

theorem Context.ofClass_matched (context : Context) {superclass superclass' : Option Occurrence}
    (parents : Option.Rel M.occurrences superclass superclass') :
    context.ofClass superclass' = context.ofClass superclass := by
  cases parents <;> rfl

mutual

theorem Stmt.Matched.resolve : ∀ {s s' : Stmt}, s.Matched M s' → ∀ (context : Context)
    {r r' : Resolver}, r.Matched M r' → (s.resolve context r).Matched M (s'.resolve context r')
  | _, _, .expression value, context, _, _, matched => value.resolve context.inClass matched
  | _, _, .print value, context, _, _, matched => value.resolve context.inClass matched
  | _, _, .var name .none, _, _, _, matched => matched.declareComplete name
  | _, _, .var name (.some initializer), context, _, _, matched =>
    (initializer.resolve context.inClass (matched.declare name)).define name
  | _, _, .block body, context, _, _, matched =>
    (Stmt.resolveAll_matched body context (matched.enter .empty)).leave
  | _, _, .ite condition thenBranch .none, context, _, _, matched =>
    thenBranch.resolve context (condition.resolve context.inClass matched)
  | _, _, .ite condition thenBranch (.some elseBranch), context, _, _, matched =>
    elseBranch.resolve context
      (thenBranch.resolve context (condition.resolve context.inClass matched))
  | _, _, .while condition body, context, _, _, matched =>
    body.resolve context (condition.resolve context.inClass matched)
  | _, _, .function f, context, _, _, matched =>
    f.resolve { context with inFunction := .function } (matched.declareComplete f.name)
  | _, _, .return keyword .none, context, _, _, matched =>
    matched.checkReturn context.inFunction keyword false
  | _, _, .return keyword (.some value), context, _, _, matched =>
    value.resolve context.inClass (matched.checkReturn context.inFunction keyword true)
  | .class _ superclass _, .class _ superclass' _, .class name parents methods, context, r, r',
      matched => by
    have entered := matched.enterClass (M.token _ _ name) parents
    simp only [Stmt.resolve, Context.ofClass_matched context parents]
    exact (Function.resolveMethods_matched methods _ entered).leaveClass parents

theorem Stmt.resolveAll_matched : ∀ {ss ss' : List Stmt}, List.Forall₂ (Stmt.Matched M) ss ss' →
    ∀ (context : Context) {r r' : Resolver}, r.Matched M r' →
      (Stmt.resolveAll context ss r).Matched M (Stmt.resolveAll context ss' r')
  | _, _, .nil, _, _, _, matched => matched
  | _, _, .cons first rest, context, _, _, matched =>
    Stmt.resolveAll_matched rest context (first.resolve context matched)

theorem Function.Matched.resolve : ∀ {f f' : Function}, f.Matched M f' → ∀ (context : Context)
    {r r' : Resolver}, r.Matched M r' → (f.resolve context r).Matched M (f'.resolve context r')
  | _, _, .mk _ parameters body, context, _, _, matched =>
    (Stmt.resolveAll_matched body context (matched.enterFunction parameters)).leave

theorem Function.resolveMethods_matched : ∀ {fs fs' : List Function},
    List.Forall₂ (Function.Matched M) fs fs' → ∀ (context : Context) {r r' : Resolver},
      r.Matched M r' →
        (Function.resolveMethods context fs r).Matched M (Function.resolveMethods context fs' r')
  | _, _, .nil, _, _, _, matched => matched
  | _, _, .cons first rest, context, _, _, matched => by
    simp only [Function.resolveMethods, first.methodContext]
    exact Function.resolveMethods_matched rest context (first.resolve _ matched)

end

structure Resolution.Matched (M : Matching) (r r' : Resolution) : Prop where
  bindings : List.Forall₂ (Binding.Matched M) r.bindings r'.bindings
  errors : List.Forall₂ (ScopeError.Matched M) r.errors r'.errors

theorem resolve_matched {program program' : Program}
    (matched : List.Forall₂ (Stmt.Matched M) program program') :
    (resolve program).Matched M (resolve program') := by
  have initial : Resolver.initial.Matched M .initial := ⟨rfl, .nil, .nil⟩
  have resolved := Stmt.resolveAll_matched matched .topLevel initial
  exact ⟨resolved.bindings, resolved.errors⟩

end Lox
