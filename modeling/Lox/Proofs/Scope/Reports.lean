import Lox.Proofs.Grammar.Placement
import Lox.Proofs.Scope.Rules
import Lox.Proofs.Scope.Visits
import Lox.Scan

/-!
# The resolver reports what the rules say

The resolver walks a program with a stack of scopes and the kinds of function and class around it. At
each part these are what the trail to the part tells (`Fits`), so that the faults reported there are
the offences of the part.
-/

namespace Lox

/-! ## Places and trails -/

namespace Trail

/-- The kind of function around what stands there. -/
def functionContext (trail : Trail) : FunctionContext :=
  match trail.innermostFunction? with
  | none => .outside
  | some (.method declaration) => declaration.methodContext
  | some _ => .function

/-- The kind of class around what stands there. -/
def classContext (trail : Trail) : ClassContext :=
  match trail.innermostClass? with
  | some (.statement (.class _ (some _) _)) => .subclass
  | some (.statement (.class _ none _)) => .baseClass
  | _ => .outside

variable {node : Node} {index : Nat} {trail : Trail}

theorem innermostFunction?_cons :
    innermostFunction? ((node, index) :: trail) =
      if node.isFunction then some node else trail.innermostFunction? := by
  cases kind : node.isFunction <;> simp [innermostFunction?, kind]

theorem innermostClass?_cons :
    innermostClass? ((node, index) :: trail) =
      if node.isClass then some node else trail.innermostClass? := by
  cases kind : node.isClass <;> simp [innermostClass?, kind]

theorem inInitializer_cons {name : String} :
    InInitializer ((node, index) :: trail) name ↔
      (node.initializes name = true ∧ trail.IsLocal) ∨ trail.InInitializer name := by
  constructor
  · rintro ⟨declaration, at', outer, suffix, initializes, here⟩
    obtain same | above := List.suffix_cons_iff.1 suffix
    · obtain ⟨⟨rfl, -⟩, rfl⟩ : (_ ∧ _) ∧ _ := by simpa using same
      exact .inl ⟨initializes, here⟩
    · exact .inr ⟨declaration, at', outer, above, initializes, here⟩
  · rintro (⟨initializes, here⟩ | ⟨declaration, at', outer, suffix, initializes, here⟩)
    · exact ⟨node, index, trail, List.suffix_rfl, initializes, here⟩
    · exact ⟨declaration, at', outer, suffix.trans (List.suffix_cons ..), initializes, here⟩

end Trail

theorem Trail.functionContext_outside {trail : Trail} :
    trail.functionContext = .outside ↔ trail.innermostFunction? = none := by
  unfold functionContext
  split
  · simp [*]
  · next declaration here => by_cases init : declaration.isInitializer <;>
      simp [here, Function.methodContext, init]
  · next here => simp [here]

theorem Trail.functionContext_initializer {trail : Trail} :
    trail.functionContext = .initializer ↔
      ∃ declaration, trail.innermostFunction? = some (.method declaration) ∧
        declaration.name.lexeme = "init" := by
  unfold functionContext
  split
  · simp [*]
  · next declaration here => simp [here, Function.methodContext, Function.isInitializer,
      initializerName]
  · next others here => grind

theorem Trail.classContext_outside {trail : Trail} :
    trail.classContext = .outside ↔ trail.innermostClass? = none := by
  cases here : trail.innermostClass? with
  | none => simp [classContext, here]
  | some node =>
    have kind := List.find?_some here
    cases node with
    | statement s =>
      cases s with
      | «class» name parent methods => cases parent <;> simp [classContext, here]
      | _ => cases kind
    | _ => cases kind

theorem Trail.classContext_baseClass {trail : Trail} :
    trail.classContext = .baseClass ↔
      ∃ name methods, trail.innermostClass? = some (.statement (.class name none methods)) := by
  unfold classContext
  split
  · next here => simp [here]
  · next here => simp [here]
  · next others => grind

/-- The kinds of function and class around the place are those on the trail, and a name is flagged as
incomplete just in its initializer. -/
structure Fits (p : Place) (trail : Trail) : Prop where
  inFunction : p.context.inFunction = trail.functionContext
  inClass : p.context.inClass = trail.classContext
  own : ∀ name, p.inOwnInitializer name = true ↔ trail.InInitializer name

namespace Fits

variable {p : Place} {trail : Trail} {node : Node} {index : Nat}

/-- A part that is neither a function nor a class, and no initialized variable, changes nothing. -/
theorem child (fits : Fits p trail) (function : node.isFunction = false)
    (noClass : node.isClass = false) (initializes : ∀ name, node.initializes name = false) :
    Fits p ((node, index) :: trail) := by
  refine ⟨?_, ?_, fun name => ?_⟩
  · rw [fits.inFunction, Trail.functionContext, Trail.functionContext,
      Trail.innermostFunction?_cons, function, if_neg (by simp)]
  · rw [fits.inClass, Trail.classContext, Trail.classContext, Trail.innermostClass?_cons, noClass,
      if_neg (by simp)]
  · rw [fits.own, Trail.inInitializer_cons, initializes]
    simp

end Fits

/-! ## Expressions -/

section Mentions

variable {p : Place} {trail : Trail} {m : Occurrence}

theorem Fits.report_name (fits : Fits p trail) :
    OwnReport trail (.expression (.name m)) (⟨.mention .variable m, p⟩ : Visit).faults := by
  refine OwnReport.ite (fun own => .ownInitializer ((fits.own _).1 own)) ?_
  intro message token offence
  cases offence with
  | ownInitializer here => exact ⟨(fits.own _).2 here, rfl, rfl⟩
  | alreadyDeclared declares _ => cases declares

theorem Fits.report_this (fits : Fits p trail) :
    OwnReport trail (.expression (.this m)) (⟨.mention .this m, p⟩ : Visit).faults := by
  have outside : p.context.inClass = .outside ↔ _ := fits.inClass ▸ Trail.classContext_outside
  refine OwnReport.ite (fun here => .thisOutsideClass (outside.1 here)) ?_
  intro message token offence
  cases offence with
  | thisOutsideClass here => exact ⟨outside.2 here, rfl, rfl⟩
  | alreadyDeclared declares _ => cases declares

theorem Fits.report_super (fits : Fits p trail) (method : Occurrence) :
    OwnReport trail (.expression (.super m method)) (⟨.mention .super m, p⟩ : Visit).faults := by
  have outside : p.context.inClass = .outside ↔ _ := fits.inClass ▸ Trail.classContext_outside
  have base : p.context.inClass = .baseClass ↔ _ := fits.inClass ▸ Trail.classContext_baseClass
  -- The context of the resolver is what the parts around make it, so each fault is one offence.
  simp only [Visit.faults]
  split
  · next here =>
    refine .one (.superOutsideClass (outside.1 here)) fun message token offence => ?_
    cases offence with
    | superOutsideClass => exact ⟨rfl, rfl⟩
    | superWithoutSuperclass inside => simp [base.2 ⟨_, _, inside⟩] at here
    | alreadyDeclared declares _ => cases declares
  · next here =>
    obtain ⟨name, methods, inside⟩ := base.1 here
    refine .one (.superWithoutSuperclass inside) fun message token offence => ?_
    cases offence with
    | superOutsideClass absent => simp [outside.2 absent] at here
    | superWithoutSuperclass => exact ⟨rfl, rfl⟩
    | alreadyDeclared declares _ => cases declares
  · next here =>
    refine .none fun message token offence => ?_
    cases offence with
    | superOutsideClass absent => simp [outside.2 absent] at here
    | superWithoutSuperclass inside => simp [base.2 ⟨_, _, inside⟩] at here
    | alreadyDeclared declares _ => cases declares

end Mentions

/-- Only an expression that mentions something can offend. -/
theorem Expr.quiet {trail : Trail} {e : Expr}
    (noMention : match e with
      | .name _ | .this _ | .super _ _ => False
      | _ => True) (message : String) (token : Token) :
    ¬Offence trail (.expression e) message token := by
  intro offence
  cases offence with
  | alreadyDeclared declares _ => cases declares
  | _ => exact noMention

mutual

theorem Expr.report {p : Place} {trail : Trail} (fits : Fits p trail) (e : Expr) :
    ReportNode trail (.expression e) ((e.visits p).flatMap Visit.faults) := by
  have inside : ∀ index, Fits p ((.expression e, index) :: trail) := fun index =>
    fits.child rfl rfl fun _ => rfl
  cases e with
  | literal value => exact .silent (Expr.quiet trivial) .nil
  | name target => simpa [Expr.visits] using ReportNode.leaf rfl fits.report_name
  | this keyword => simpa [Expr.visits] using ReportNode.leaf rfl fits.report_this
  | super keyword method =>
    simpa [Expr.visits] using ReportNode.leaf rfl (fits.report_super method)
  | grouping inner => exact .silent (Expr.quiet trivial) (.single (Expr.report (inside 0) inner))
  | unary operator operand =>
    exact .silent (Expr.quiet trivial) (.single (Expr.report (inside 0) operand))
  | get object property =>
    exact .silent (Expr.quiet trivial) (.single (Expr.report (inside 0) object))
  | assign target value =>
    -- No rule forbids an assignment, whatever its target is.
    have report := Expr.report (inside 0) value
    rw [Expr.visits, List.flatMap_append, List.flatMap_singleton,
      show (⟨.mention .assignment target, p⟩ : Visit).faults = [] from rfl, List.append_nil]
    exact .silent (Expr.quiet trivial) (.single report)
  | binary left operator right | logical left operator right =>
    rw [Expr.visits, List.flatMap_append]
    exact .silent (Expr.quiet trivial)
      (.cons (Expr.report (inside 0) left) (.single (Expr.report (inside 1) right)))
  | set object property value =>
    rw [Expr.visits, List.flatMap_append]
    exact .silent (Expr.quiet trivial)
      (.cons (Expr.report (inside 0) value) (.single (Expr.report (inside 1) object)))
  | call callee paren arguments =>
    rw [Expr.visits, List.flatMap_append]
    exact .silent (Expr.quiet trivial)
      (.cons (Expr.report (inside 0) callee) (Expr.reportAll inside 1 arguments))

theorem Expr.reportAll {p : Place} {trail : Trail} {node : Node}
    (fits : ∀ index, Fits p ((node, index) :: trail)) (first : Nat) (es : List Expr) :
    ReportChildren trail node first (es.map .expression)
      ((Expr.allVisits p es).flatMap Visit.faults) := by
  cases es with
  | nil => exact .nil
  | cons e rest =>
    rw [Expr.allVisits, List.flatMap_append]
    exact .cons (Expr.report (fits first) e) (Expr.reportAll fits (first + 1) rest)

end

/-! ## Places between statements -/

/-- At the place, no initializer is read. -/
structure AtRest (p : Place) (trail : Trail) : Prop extends Fits p trail where
  complete : ∀ name, ¬trail.InInitializer name

theorem Place.inOwnInitializer_mark (p : Place) (name other : String) (complete : Bool) :
    (p.mark name complete).inOwnInitializer other =
      if name = other then !complete && !p.levels.isEmpty else p.inOwnInitializer other := by
  obtain ⟨levels, context⟩ := p
  cases levels with
  | nil => simp [inOwnInitializer, mark]
  | cons level outer =>
    simp only [inOwnInitializer, mark, Table.find?_insert]
    by_cases same : name = other
    · cases complete <;> simp [same]
    · simp [same]

namespace AtRest

variable {p q : Place} {trail : Trail} {node : Node} {index : Nat}

theorem incomplete (resting : AtRest p trail) (name : String) : p.inOwnInitializer name = false := by
  rw [← Bool.not_eq_true, resting.own]
  exact resting.complete name

theorem intro (inFunction : p.context.inFunction = trail.functionContext)
    (inClass : p.context.inClass = trail.classContext)
    (incomplete : ∀ name, p.inOwnInitializer name = false)
    (complete : ∀ name, ¬trail.InInitializer name) : AtRest p trail :=
  ⟨⟨inFunction, inClass, fun name => by simp [incomplete, complete]⟩, complete⟩

theorem below (resting : AtRest p trail) (initializes : ∀ name, node.initializes name = false)
    (name : String) : ¬Trail.InInitializer ((node, index) :: trail) name := by
  rw [Trail.inInitializer_cons, initializes]
  simpa using resting.complete name

theorem child (resting : AtRest p trail) (function : node.isFunction = false)
    (noClass : node.isClass = false) (initializes : ∀ name, node.initializes name = false) :
    AtRest p ((node, index) :: trail) :=
  ⟨resting.toFits.child function noClass initializes, resting.below initializes⟩

/-- A further scope, in which nothing is declared yet. -/
theorem enter (resting : AtRest p trail) (origin : Origin) :
    AtRest (p.enter .empty origin) trail :=
  intro resting.inFunction resting.inClass (fun _ => rfl) resting.complete

theorem declareComplete (resting : AtRest p trail) (name : Token) :
    AtRest (p.declareComplete name) trail := by
  have context := (Place.Advances.declareComplete p name).context
  refine intro (by rw [context, resting.inFunction]) (by rw [context, resting.inClass])
    (fun other => ?_) resting.complete
  simp only [Place.declareComplete, Place.inOwnInitializer_mark, resting.incomplete]
  split <;> rfl

end AtRest

/-- The innermost scope holds the names that the children of the part declare before the one with the
index. A part that is no scope stands at top level. -/
structure Home (p : Place) (node : Node) (index : Nat) : Prop where
  isLocal : node.isScope = true ↔ p.levels ≠ []
  names : ∀ level ∈ p.levels.head?, ∀ name, level.scope.contains name = true ↔
    ∃ earlier < index, ∃ sibling ∈ node.children[earlier]?, ∃ other ∈ sibling.declared?,
      other.lexeme = name

/-- The place after a part that may declare a name. -/
def Node.after (node : Node) (p : Place) : Place :=
  match node.declared? with
  | none => p
  | some name => p.declareComplete name

theorem AtRest.after {p : Place} {trail : Trail} (resting : AtRest p trail) (node : Node) :
    AtRest (node.after p) trail := by
  unfold Node.after
  split
  · exact resting
  · exact resting.declareComplete _

namespace Home

variable {p : Place} {node child : Node} {index : Nat} {trail : Trail}

theorem next (home : Home p node index) (here : node.children[index]? = some child) :
    Home (child.after p) node (index + 1) := by
  obtain ⟨⟨levels, context⟩, isLocal, names⟩ := p, home
  -- One more child lies before: the one that is left now.
  have split : ∀ (Q : Node → Prop),
      (∃ earlier < index + 1, ∃ sibling ∈ node.children[earlier]?, Q sibling) ↔
        (∃ earlier < index, ∃ sibling ∈ node.children[earlier]?, Q sibling) ∨ Q child := by
    intro Q
    constructor
    · rintro ⟨earlier, bound, sibling, there, holds⟩
      obtain before | rfl := Nat.lt_succ_iff_lt_or_eq.1 bound
      · exact .inl ⟨earlier, before, sibling, there, holds⟩
      · cases Option.some.inj (here.symm.trans there)
        exact .inr holds
    · rintro (⟨earlier, bound, rest⟩ | holds)
      · exact ⟨earlier, Nat.lt_succ_of_lt bound, rest⟩
      · exact ⟨index, Nat.lt_succ_self _, child, here, holds⟩
  unfold Node.after
  cases declared : child.declared? with
  | none =>
    refine ⟨isLocal, fun level first name => ?_⟩
    rw [split, names level first]
    simp [declared]
  | some other =>
    cases levels with
    | nil =>
      refine ⟨isLocal, ?_⟩
      rintro level ⟨⟩
    | cons level outer =>
      refine ⟨by rw [isLocal]; simp [Place.declareComplete, Place.mark], fun level' first name => ?_⟩
      rw [split, ← names level rfl]
      cases first
      by_cases same : other.lexeme = name <;> simp [Table.contains_insert, declared, same]

/-- What a declaration can offend against. -/
theorem offence_declared {name : Token} (declares : node.declared? = some name) {message : String}
    {token : Token} (offence : Offence trail node message token) :
    trail.DeclaredBefore name.lexeme ∧
      message = ScopeFault.alreadyDeclared.message ∧ token = name := by
  cases offence with
  | alreadyDeclared declares' before =>
    obtain rfl := Option.some.inj (declares.symm.trans declares')
    exact ⟨before, rfl, rfl⟩
  | _ => cases declares

theorem declaration (home : Home p node index) {name : Token}
    (declares : child.declared? = some name) :
    OwnReport ((node, index) :: trail) child (⟨.declaration name, p⟩ : Visit).faults := by
  obtain ⟨⟨levels, context⟩, isLocal, names⟩ := p, home
  -- What the rules call declared before is what the scope has by now.
  have before : Trail.DeclaredBefore ((node, index) :: trail) name.lexeme ↔
      ∃ level ∈ levels.head?, level.scope.contains name.lexeme = true := by
    constructor
    · rintro ⟨scope, _, outer, same, local', declared⟩
      obtain ⟨⟨rfl, rfl⟩, rfl⟩ : (_ ∧ _) ∧ _ := by simpa using same
      obtain ⟨level, rest, rfl⟩ := List.exists_cons_of_ne_nil (isLocal.1 local')
      exact ⟨level, rfl, (names level rfl _).2 declared⟩
    · rintro ⟨level, first, present⟩
      refine ⟨node, index, trail, rfl, isLocal.2 ?_, (names level first _).1 present⟩
      rintro rfl
      cases first
  cases levels with
  | nil =>
    refine .none fun message token offence => ?_
    simpa using before.1 (offence_declared declares offence).1
  | cons level outer =>
    refine .ite (fun present => ?_) fun message token offence => ?_
    · exact .alreadyDeclared declares (before.2 ⟨level, rfl, present⟩)
    · obtain ⟨again, words⟩ := offence_declared declares offence
      obtain ⟨_, first, present⟩ := before.1 again
      cases first
      exact ⟨present, words⟩

end Home

theorem Stmt.after_eq (p : Place) {s : Stmt} (placed : s.WellPlaced) :
    s.after p = (Node.statement s).after p := by
  cases declared : s.declared? with
  | none => simp [Stmt.after_of_not_declared p s placed declared, Node.after, Node.declared?, declared]
  | some name => simp [Stmt.after_of_declared p declared, Node.after, Node.declared?, declared]

/-! ## Statements -/

/-- Only a declaration or a `return` can offend. -/
theorem Stmt.quiet {trail : Trail} {s : Stmt} (silent : s.declared? = none)
    (noReturn : match s with
      | .return _ _ => False
      | _ => True) (message : String) (token : Token) :
    ¬Offence trail (.statement s) message token := by
  intro offence
  cases offence with
  | alreadyDeclared declares _ =>
    rw [show (Node.statement s).declared? = s.declared? from rfl, silent] at declares
    cases declares
  | _ => exact noReturn

theorem Fits.report_return {p : Place} {trail : Trail} (fits : Fits p trail) (keyword : Token)
    (value : Option Expr) :
    OwnReport trail (.statement (.return keyword value))
      (⟨.result keyword value.isSome, p⟩ : Visit).faults := by
  have outside : p.context.inFunction = .outside ↔ _ :=
    fits.inFunction ▸ Trail.functionContext_outside
  have initializer : p.context.inFunction = .initializer ↔ _ :=
    fits.inFunction ▸ Trail.functionContext_initializer
  simp only [Visit.faults]
  -- At the top level the place is all that counts, in an initializer the value does as well.
  split
  · next here =>
    refine .one (.topLevelReturn (outside.1 here)) fun message token offence => ?_
    cases offence with
    | topLevelReturn => exact ⟨rfl, rfl⟩
    | initializerReturn inside named => simp [initializer.2 ⟨_, inside, named⟩] at here
    | alreadyDeclared declares _ => cases declares
  · next here =>
    obtain ⟨declaration, inside, named⟩ := initializer.1 here
    refine .ite (fun given => ?_) fun message token offence => ?_
    · obtain ⟨value, rfl⟩ := Option.isSome_iff_exists.1 given
      exact .initializerReturn inside named
    · cases offence with
      | topLevelReturn absent => simp [outside.2 absent] at here
      | initializerReturn => exact ⟨rfl, rfl, rfl⟩
      | alreadyDeclared declares _ => cases declares
  · next noTop noInitializer =>
    refine .none fun message token offence => ?_
    cases offence with
    | topLevelReturn absent => exact noTop (outside.2 absent)
    | initializerReturn inside named => exact noInitializer (initializer.2 ⟨_, inside, named⟩)
    | alreadyDeclared declares _ => cases declares

theorem report_superclass {p : Place} {trail : Trail} {m : Occurrence}
    (incomplete : p.inOwnInitializer m.name = false) (className : Token) :
    ReportNode trail (.superclass className m) (⟨.superclass className m, p⟩ : Visit).faults := by
  simp only [Visit.faults, incomplete, Bool.false_eq_true, if_false, List.append_nil]
  refine .leaf rfl (.ite (fun same => .inheritsFromItself (eq_of_beq same)) ?_)
  intro message token offence
  cases offence with
  | inheritsFromItself same => exact ⟨beq_iff_eq.2 same, rfl, rfl⟩
  | alreadyDeclared declares _ => cases declares

/-- The place of a declaration is a child of a scope, or stands at top level. -/
def AtHome (p : Place) (trail : Trail) : Prop :=
  ∃ node index outer, trail = (node, index) :: outer ∧ Home p node index

theorem AtHome.declaration {p : Place} {trail : Trail} (home : AtHome p trail) {child : Node}
    {name : Token} (declares : child.declared? = some name) :
    OwnReport trail child (⟨.declaration name, p⟩ : Visit).faults := by
  obtain ⟨node, index, outer, rfl, home⟩ := home
  exact home.declaration declares

theorem AtHome.isLocal {p : Place} {trail : Trail} (home : AtHome p trail) :
    trail.IsLocal ↔ p.levels ≠ [] := by
  obtain ⟨node, index, outer, rfl, home⟩ := home
  simpa [Trail.IsLocal] using home.isLocal

/-- The place in the initializer of a variable. -/
theorem AtRest.initializer {p : Place} {trail : Trail} (resting : AtRest p trail)
    (home : AtHome p trail) (name : Token) (value : Expr) (index : Nat) :
    Fits (p.declare name) ((.statement (.var name (some value)), index) :: trail) := by
  have context := (Place.Advances.mark p name.lexeme false).context
  have plain : Fits p ((.statement (.var name none), index) :: trail) :=
    resting.toFits.child rfl rfl fun _ => rfl
  refine ⟨?_, ?_, fun other => ?_⟩
  · rw [Place.declare, context, plain.inFunction]
    rfl
  · rw [Place.declare, context, plain.inClass]
    rfl
  · rw [Place.declare, Place.inOwnInitializer_mark, resting.incomplete, Trail.inInitializer_cons,
      home.isLocal]
    have complete := resting.complete other
    by_cases same : name.lexeme = other <;> simp [Node.initializes, same, complete]

/-- The place of the methods of a class. -/
theorem AtRest.enterClass {p : Place} {trail : Trail} (resting : AtRest p trail) (text : ClassText)
    (index : Nat) : AtRest (p.enterClass text)
      ((.statement (.class text.name text.superclass text.methods), index) :: trail) := by
  have context := p.enterClass_context text
  obtain ⟨name, parent, methods⟩ := text
  refine .intro ?_ ?_ (fun other => ?_) (resting.below fun _ => rfl)
  · rw [context, Context.ofClass, resting.inFunction]
    rfl
  · rw [context]
    cases parent <;> rfl
  · simp only [Place.enterClass, Place.enter, Place.inOwnInitializer, Resolver.implicitScope,
      Table.find?_insert]
    split <;> rfl

/-- The place at the first child of a scope. -/
theorem Home.first {node : Node} (p : Place) (scope : node.isScope = true) (origin : Origin) :
    Home (p.enter .empty origin) node 0 := by
  refine ⟨by simp [scope, Place.enter], fun level first name => ?_⟩
  cases first
  simp [Table.contains]

theorem Place.report_parameters {node : Node} {outer : Trail} (parameters : List Token) :
    ∀ {p : Place} {first : Nat} {others : List Node}
      (_ : ∀ index, AtRest p ((node, index) :: outer)) (_ : Home p node first)
      (_ : node.children.drop first = parameters.map .parameter ++ others),
      ReportChildren outer node first (parameters.map .parameter)
          ((p.parameterVisits parameters).flatMap Visit.faults) ∧
        (∀ index, AtRest (parameters.foldl declareComplete p) ((node, index) :: outer)) ∧
        Home (parameters.foldl declareComplete p) node (first + parameters.length) ∧
        node.children.drop (first + parameters.length) = others := by
  induction parameters with
  | nil =>
    intro p first others resting home children
    exact ⟨.nil, resting, home, children⟩
  | cons name rest inductionHypothesis =>
    intro p first others resting home children
    have here : node.children[first]? = some (.parameter name) := by
      rw [← List.head?_drop, children]
      rfl
    have tail : node.children.drop (first + 1) = rest.map .parameter ++ others := by
      rw [← List.tail_drop, children]
      rfl
    obtain ⟨report, resting', home', others'⟩ := inductionHypothesis
      (fun index => (resting index).declareComplete name) (home.next here) tail
    rw [List.length_cons, Nat.add_comm rest.length 1, ← Nat.add_assoc]
    refine ⟨?_, resting', home', others'⟩
    exact .cons (.leaf rfl (home.declaration rfl)) report

mutual

theorem Stmt.report {p : Place} {trail : Trail} (s : Stmt) (placed : s.WellPlaced)
    (resting : AtRest p trail) (home : s.declared? ≠ none → AtHome p trail) :
    ReportNode trail (.statement s) ((s.visits p).flatMap Visit.faults) := by
  cases s with
  | expression value | print value =>
    exact .silent (Stmt.quiet rfl trivial)
      (.single (value.report (resting.toFits.child rfl rfl fun _ => rfl)))
  | var name initializer =>
    have own : OwnReport trail (.statement (.var name initializer)) _ :=
      (home nofun).declaration rfl
    cases initializer with
    | none => simpa [Stmt.visits] using ReportNode.leaf rfl own
    | some value =>
      rw [Stmt.visits, List.flatMap_cons]
      exact .intro own (.single (value.report (resting.initializer (home nofun) name value 0)))
  | block body =>
    -- In its own scope a block is at home, so that its statements may declare.
    have inside : ∀ index, AtRest (p.enter .empty (.block body))
        ((.statement (.block body), index) :: trail) := fun index =>
      (resting.child rfl rfl fun _ => rfl).enter _
    rw [Stmt.WellPlaced] at placed
    exact .silent (Stmt.quiet rfl trivial)
      (Stmt.reportAll body placed inside (.first p rfl _) rfl)
  | ite condition thenBranch elseBranch =>
    -- A branch is at rest but not at home: it must not declare anything.
    have inside : ∀ index, AtRest p
        ((.statement (.ite condition thenBranch elseBranch), index) :: trail) := fun index =>
      resting.child rfl rfl fun _ => rfl
    cases elseBranch with
    | none =>
      rw [Stmt.WellPlaced] at placed
      rw [Stmt.visits, List.flatMap_append]
      exact .silent (Stmt.quiet rfl trivial) (.cons (condition.report (inside 0).toFits)
        (.single (Stmt.report thenBranch placed.2 (inside 1) fun declares =>
          absurd placed.1 declares)))
    | some elseBranch =>
      rw [Stmt.WellPlaced] at placed
      obtain ⟨⟨silent, placedThen⟩, silent', placedElse⟩ := placed
      rw [Stmt.visits, List.flatMap_append, List.flatMap_append, List.append_assoc,
        Stmt.after_of_not_declared p thenBranch placedThen silent]
      exact .silent (Stmt.quiet rfl trivial) (.cons (condition.report (inside 0).toFits)
        (.cons (Stmt.report thenBranch placedThen (inside 1) fun declares =>
          absurd silent declares)
        (.single (Stmt.report elseBranch placedElse (inside 2) fun declares =>
          absurd silent' declares))))
  | «while» condition body =>
    have inside : ∀ index, AtRest p
        ((.statement (.while condition body), index) :: trail) := fun index =>
      resting.child rfl rfl fun _ => rfl
    rw [Stmt.WellPlaced] at placed
    rw [Stmt.visits, List.flatMap_append]
    exact .silent (Stmt.quiet rfl trivial) (.cons (condition.report (inside 0).toFits)
      (.single (Stmt.report body placed.2 (inside 1) fun declares => absurd placed.1 declares)))
  | function declaration =>
    have inside : ∀ index, AtRest
        (((p.declareComplete declaration.name).withFunction .function).enter .empty
          (.function declaration))
        ((.function declaration, index) :: (.statement (.function declaration), 0) :: trail) := by
      have resting : AtRest (p.declareComplete declaration.name)
          ((.statement (.function declaration), 0) :: trail) :=
        (resting.declareComplete _).child rfl rfl fun _ => rfl
      exact fun index => .intro rfl resting.inClass (fun _ => rfl) (resting.below fun _ => rfl)
    rw [Stmt.WellPlaced] at placed
    rw [Stmt.visits, List.flatMap_cons]
    exact .intro ((home nofun).declaration rfl)
      (.single (Function.report declaration placed inside rfl (fun _ _ => by rintro ⟨⟩; contradiction) rfl))
  | «return» keyword value =>
    have own := resting.toFits.report_return keyword value
    cases value with
    | none => simpa [Stmt.visits] using ReportNode.leaf rfl own
    | some value =>
      rw [Stmt.visits, List.flatMap_cons]
      exact .intro own (.single (value.report (resting.toFits.child rfl rfl fun _ => rfl)))
  | «class» name parent methods =>
    have inside := resting.enterClass ⟨name, parent, methods⟩
    rw [Stmt.WellPlaced] at placed
    have own : OwnReport trail (.statement (.class name parent methods)) _ :=
      (home nofun).declaration rfl
    rw [Stmt.visits, List.cons_append, List.flatMap_cons]
    refine .intro own ?_
    cases parent with
    | none => exact Function.reportMethods methods placed inside
    | some mention =>
      -- The superclass is looked up where the name of the class is complete already.
      have incomplete := (resting.declareComplete name.token).incomplete mention.name
      rw [List.flatMap_append, Place.superclassVisits, List.flatMap_singleton]
      exact .cons (report_superclass incomplete name.token)
        (Function.reportMethods methods placed inside)

theorem Stmt.reportAll {p : Place} {node : Node} {outer : Trail} {first : Nat} (ss : List Stmt)
    (placed : Stmt.AllWellPlaced ss) (resting : ∀ index, AtRest p ((node, index) :: outer))
    (home : Home p node first) (children : node.children.drop first = ss.map .statement) :
    ReportChildren outer node first (ss.map .statement)
      ((Stmt.allVisits p ss).flatMap Visit.faults) := by
  cases ss with
  | nil => exact .nil
  | cons s rest =>
    rw [Stmt.AllWellPlaced] at placed
    have here : node.children[first]? = some (.statement s) := by
      rw [← List.head?_drop, children]
      rfl
    have tail : node.children.drop (first + 1) = rest.map .statement := by
      rw [← List.tail_drop, children]
      rfl
    rw [Stmt.allVisits, List.flatMap_append, Stmt.after_eq p placed.1]
    exact .cons (Stmt.report s placed.1 (resting first) fun _ => ⟨_, _, _, rfl, home⟩)
      (Stmt.reportAll rest placed.2 (fun index => (resting index).after _) (home.next here) tail)

theorem Function.report {p : Place} {node : Node} {outer : Trail} (f : Function)
    (placed : f.WellPlaced)
    (resting : ∀ index, AtRest (p.enter .empty (.function f)) ((node, index) :: outer))
    (scope : node.isScope = true) (quiet : ∀ message token, ¬Offence outer node message token)
    (children : node.children = f.parameters.map .parameter ++ f.body.map .statement) :
    ReportNode outer node ((f.visits p).flatMap Visit.faults) := by
  cases f with
  | mk name parameters body =>
    rw [Function.WellPlaced] at placed
    obtain ⟨report, resting', home, rest⟩ := Place.report_parameters parameters resting
      (.first p scope _) children
    rw [Function.visits, List.flatMap_append]
    refine .silent quiet ?_
    rw [children]
    rw [← parameters.length_map Node.parameter] at home rest
    exact .append report (Stmt.reportAll body placed resting' home rest)

theorem Function.reportMethods {p : Place} {node : Node} {outer : Trail} {first : Nat}
    (methods : List Function) (placed : Function.AllWellPlaced methods)
    (resting : ∀ index, AtRest p ((node, index) :: outer)) :
    ReportChildren outer node first (methods.map .method)
      ((Function.methodVisits p methods).flatMap Visit.faults) := by
  cases methods with
  | nil => exact .nil
  | cons f rest =>
    rw [Function.AllWellPlaced] at placed
    have inside : ∀ index, AtRest ((p.withFunction f.methodContext).enter .empty (.function f))
        ((.method f, index) :: (node, first) :: outer) := fun index =>
      .intro rfl (resting first).inClass (fun _ => rfl) ((resting first).below fun _ => rfl)
    rw [Function.methodVisits, List.flatMap_append]
    exact .cons (Function.report f placed.1 inside rfl (fun _ _ => by rintro ⟨⟩; contradiction) rfl)
      (Function.reportMethods rest placed.2 resting)

end

/-! ## Programs -/

/--
The resolver reports what the rules say. Whatever tokens were parsed, and with whatever faults, there is
exactly one report for each part of the program that offends against a rule, and no other.
-/
theorem resolve_errors {depth start : Nat} {tokens : List Token} {parsed : Parse}
    (parses : parse? depth start tokens = some parsed) :
    ∃ complaints : List Complaint,
      complaints.Nodup ∧
      (∀ trail message token, (trail, message, token) ∈ complaints ↔
        ∃ part, Reaches [] (.program parsed.statements) trail part ∧
          Offence trail part message token) ∧
      (resolve parsed.statements).errors.map (fun e => (e.fault.message, e.token)) =
        complaints.map Prod.snd := by
  -- At the top level no initializer is around, and no child has been left yet.
  have resting : ∀ index, AtRest .topLevel [(.program parsed.statements, index)] := fun index =>
    .intro rfl rfl (fun _ => rfl) fun name => by
      rw [Trail.inInitializer_cons]
      simp [Node.initializes, Trail.InInitializer]
  have home : Home .topLevel (.program parsed.statements) 0 :=
    ⟨by simp [Node.isScope, Place.topLevel], by simp [Place.topLevel]⟩
  have report : ReportNode [] (.program parsed.statements) _ := .silent
    (by rintro _ _ ⟨⟩; contradiction)
    (Stmt.reportAll parsed.statements (parse?_wellPlaced parses) resting home rfl)
  obtain ⟨complaints, distinct, members, words⟩ := report
  rw [resolve_eq]
  exact ⟨complaints, distinct, fun trail message token => members _, words⟩

/-- A program that offends in six ways. -/
def unruly : String :=
  "class A < A { init(a) { var a = a; return this; } } return super.x;"

theorem unruly_parses : (parse? 60 0 (scan unruly).tokens).isSome = true := by decide +kernel

theorem resolve_errors_unruly :
    ∃ (parsed : Parse) (complaints : List Complaint),
      parse? 60 0 (scan unruly).tokens = some parsed ∧ complaints.Nodup ∧
      (∀ trail message token, (trail, message, token) ∈ complaints ↔
        ∃ part, Reaches [] (.program parsed.statements) trail part ∧
          Offence trail part message token) ∧
      complaints.map (fun c => c.2.1) =
        ["A class can't inherit from itself.", "Already a variable with this name in this scope.",
          "Can't read local variable in its own initializer.",
          "Can't return a value from an initializer.", "Can't return from top-level code.",
          "Can't use 'super' outside of a class."] := by
  let parsed := (parse? 60 0 (scan unruly).tokens).get unruly_parses
  have parses : parse? 60 0 (scan unruly).tokens = some parsed := (Option.some_get _).symm
  have messages : ((resolve parsed.statements).errors.map fun e => (e.fault.message, e.token)).map
      Prod.fst = ["A class can't inherit from itself.",
        "Already a variable with this name in this scope.",
        "Can't read local variable in its own initializer.",
        "Can't return a value from an initializer.", "Can't return from top-level code.",
        "Can't use 'super' outside of a class."] := by decide +kernel
  obtain ⟨complaints, distinct, members, words⟩ := resolve_errors parses
  rw [words, List.map_map] at messages
  exact ⟨parsed, complaints, parses, distinct, members, messages⟩

end Lox
