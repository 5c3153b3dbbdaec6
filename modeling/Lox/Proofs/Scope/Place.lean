import Lox.Scope.Resolution

/-!
# Places in a program

A place is what the resolver knows when it comes to some part of a program: the scopes around it, and
the kinds of function and class around it. Each scope is kept with its origin, the part of the text
for which it was opened. `visits` lists, in the order in which the resolver comes to them, the parts
of a program that it looks at, each with its place.
-/

namespace Lox

/-! ## Origins of scopes -/

/-- A class declaration. -/
structure ClassText where
  name : Occurrence
  superclass : Option Occurrence
  methods : List Function

/-- The part of a program for which a scope is opened. -/
inductive Origin where
  | block (body : List Stmt)
  /-- The parameters and the body of a function or method. -/
  | function (declaration : Function)
  /-- The implicit scope around the methods of a class. -/
  | this (text : ClassText)
  /-- The implicit scope around the methods of a class that has a superclass. -/
  | super (text : ClassText)

/-- The name that a statement declares in the scope around it. -/
def Stmt.declared? : Stmt → Option Token
  | .var name _ => some name
  | .function declaration => some declaration.name
  | .class name _ _ => some name.token
  | _ => none

/-- The names that the text of a scope declares in it. -/
def Origin.names : Origin → List String
  | .block body => (body.filterMap Stmt.declared?).map Token.lexeme
  | .function f => (f.parameters ++ f.body.filterMap Stmt.declared?).map Token.lexeme
  | .this _ => ["this"]
  | .super _ => ["super"]

/-! ## Places -/

/-- A scope around a place, as it is when the resolver comes to the place. -/
structure Level where
  scope : Scope
  origin : Origin

/-- The scopes around a place, the innermost first, and the kinds of function and class around it. -/
structure Place where
  levels : List Level
  context : Context

namespace Place

def topLevel : Place := ⟨[], .topLevel⟩

def scopes (p : Place) : List Scope := p.levels.map Level.scope

/-- The number of scopes between a place and the nearest one that declares the name. -/
def distance? (p : Place) (name : String) : Option Nat := p.scopes.findIdx? (·.contains name)

/-- The place inside a new scope. -/
def enter (p : Place) (scope : Scope) (origin : Origin) : Place :=
  { p with levels := ⟨scope, origin⟩ :: p.levels }

/-- The place after a name of the innermost scope got a flag. -/
def mark (p : Place) (name : String) (complete : Bool) : Place :=
  match p.levels with
  | [] => p
  | level :: outer =>
    { p with levels := { level with scope := level.scope.insert name complete } :: outer }

def declare (p : Place) (name : Token) : Place := p.mark name.lexeme false

def declareComplete (p : Place) (name : Token) : Place :=
  (p.mark name.lexeme false).mark name.lexeme true

def withFunction (p : Place) (kind : FunctionContext) : Place :=
  { p with context := { p.context with inFunction := kind } }

/-- The place of the methods of a class, given the place of its declaration. -/
def enterClass (p : Place) (text : ClassText) : Place :=
  let p := p.declareComplete text.name.token
  let p := match text.superclass with
    | none => p
    | some _ => p.enter (Resolver.implicitScope "super") (.super text)
  { p.enter (Resolver.implicitScope "this") (.this text) with
    context := p.context.ofClass text.superclass }

/-- The place of the body of a function, given the place around the function. -/
def enterFunction (p : Place) (f : Function) : Place :=
  f.parameters.foldl declareComplete (p.enter .empty (.function f))

/-- Whether the name is declared in the innermost scope and its initializer is not complete. -/
def inOwnInitializer (p : Place) (name : String) : Bool :=
  match p.levels with
  | [] => false
  | level :: _ => level.scope.find? name == some false

end Place

/-- The place after a statement, given the place before it. -/
def Stmt.after : Stmt → Place → Place
  | .var name _, p => p.declareComplete name
  | .function declaration, p => p.declareComplete declaration.name
  | .class name _ _, p => p.declareComplete name.token
  | .ite _ thenBranch none, p => thenBranch.after p
  | .ite _ thenBranch (some elseBranch), p => elseBranch.after (thenBranch.after p)
  | .while _ body, p => body.after p
  | _, p => p

/-- The place after statements, given the place before them. -/
def Stmt.allAfter (p : Place) (ss : List Stmt) : Place := ss.foldl (fun p s => s.after p) p

/-! ## Advancing within a scope -/

/-- Place `q` lies in the same scopes as `p`, and only the innermost scope may have changed. -/
structure Place.Advances (p q : Place) : Prop where
  context : q.context = p.context
  tail : q.levels.tail = p.levels.tail
  origins : q.levels.map Level.origin = p.levels.map Level.origin

namespace Place.Advances

variable {p q u : Place}

theorem refl (p : Place) : p.Advances p := ⟨rfl, rfl, rfl⟩

theorem trans (first : p.Advances q) (second : q.Advances u) : p.Advances u :=
  ⟨second.context.trans first.context, second.tail.trans first.tail,
    second.origins.trans first.origins⟩

theorem mark (p : Place) (name : String) (complete : Bool) : p.Advances (p.mark name complete) := by
  obtain ⟨levels, context⟩ := p
  cases levels <;> exact ⟨rfl, rfl, rfl⟩

theorem declareComplete (p : Place) (name : Token) : p.Advances (p.declareComplete name) :=
  (mark p _ _).trans (mark _ _ _)

/-- A place that advances stays inside the scope that was entered last. -/
theorem inside {scope : Scope} {origin : Origin} (advances : (p.enter scope origin).Advances q) :
    ∃ scope', q = p.enter scope' origin := by
  obtain ⟨levels, context⟩ := q
  obtain ⟨contextEqual, tailEqual, originsEqual⟩ := advances
  cases levels with
  | nil => simp [enter] at originsEqual
  | cons level outer =>
    obtain ⟨inner, innerOrigin⟩ := level
    simp only [enter, List.tail_cons, List.map_cons, List.cons.injEq] at *
    obtain ⟨rfl, -⟩ := originsEqual
    exact ⟨inner, by rw [contextEqual, tailEqual]⟩

theorem parameters (names : List Token) (p : Place) :
    p.Advances (names.foldl Place.declareComplete p) := by
  induction names generalizing p with
  | nil => exact refl p
  | cons name rest inductionHypothesis =>
    exact (declareComplete p name).trans (inductionHypothesis _)

end Place.Advances

theorem Stmt.after_advances (s : Stmt) (p : Place) : p.Advances (s.after p) := by
  cases s with
  | var name _ | function declaration | «class» name _ _ =>
    rw [Stmt.after]
    exact .declareComplete p _
  | ite _ thenBranch elseBranch =>
    cases elseBranch with
    | none => exact after_advances thenBranch p
    | some elseBranch => exact (after_advances thenBranch p).trans (after_advances elseBranch _)
  | «while» _ body => exact after_advances body p
  | expression | print | block | «return» => exact .refl p

theorem Stmt.allAfter_advances (ss : List Stmt) (p : Place) : p.Advances (Stmt.allAfter p ss) := by
  induction ss generalizing p with
  | nil => exact .refl p
  | cons s rest inductionHypothesis => exact (s.after_advances p).trans (inductionHypothesis _)

theorem Place.enterFunction_advances (p : Place) (f : Function) :
    (p.enter .empty (.function f)).Advances (p.enterFunction f) :=
  .parameters f.parameters _

theorem Place.enterClass_context (p : Place) (text : ClassText) :
    (p.enterClass text).context = p.context.ofClass text.superclass := by
  have declared := (Place.Advances.declareComplete p text.name.token).context
  obtain ⟨name, superclass, methods⟩ := text
  cases superclass <;> simp [Place.enterClass, Place.enter, declared]

/-! ## Visits -/

/-- A part of a program that the resolver looks at. -/
inductive Subject where
  | declaration (name : Token)
  | mention (form : MentionForm) (mention : Occurrence)
  /-- The superclass that the declaration of a class mentions. -/
  | superclass (className : Token) (mention : Occurrence)
  | result (keyword : Token) (hasValue : Bool)

/-- The occurrence that a subject looks up, and how. -/
def Subject.mention? : Subject → Option (MentionForm × Occurrence)
  | mention form m => some (form, m)
  | superclass _ m => some (.variable, m)
  | _ => none

/-- A part of a program with its place. -/
structure Visit where
  subject : Subject
  place : Place

namespace Visit

def mention? (v : Visit) : Option (MentionForm × Occurrence) := v.subject.mention?

/-- The faults that the resolver reports at a visit. -/
def faults (v : Visit) : List ScopeError :=
  match v.subject with
  | .declaration name =>
    match v.place.levels with
    | [] => []
    | level :: _ => if level.scope.contains name.lexeme then [⟨.alreadyDeclared, name⟩] else []
  | .mention .variable m =>
    if v.place.inOwnInitializer m.name then [⟨.ownInitializer, m.token⟩] else []
  | .mention .assignment _ => []
  | .mention .this m =>
    if v.place.context.inClass = .outside then [⟨.thisOutsideClass, m.token⟩] else []
  | .mention .super m =>
    match v.place.context.inClass with
    | .outside => [⟨.superOutsideClass, m.token⟩]
    | .baseClass => [⟨.superWithoutSuperclass, m.token⟩]
    | .subclass => []
  | .superclass className m =>
    (if m.name == className.lexeme then [⟨.inheritsFromItself, m.token⟩] else []) ++
      (if v.place.inOwnInitializer m.name then [⟨.ownInitializer, m.token⟩] else [])
  | .result keyword hasValue =>
    match v.place.context.inFunction with
    | .outside => [⟨.topLevelReturn, keyword⟩]
    | .initializer => if hasValue then [⟨.initializerReturn, keyword⟩] else []
    | _ => []

/-- The binding that the resolver records at a visit. -/
def binding? (v : Visit) : Option Binding :=
  match v.mention? with
  | none => none
  | some (form, m) =>
    if form = .this ∧ v.place.context.inClass = .outside then none
    else (v.place.distance? m.name).map (⟨form, m, ·⟩)

variable {p : Place} {m : Occurrence}

@[simp] theorem binding?_declaration {name : Token} :
    (⟨.declaration name, p⟩ : Visit).binding? = none := rfl

@[simp] theorem binding?_result {keyword : Token} {hasValue : Bool} :
    (⟨.result keyword hasValue, p⟩ : Visit).binding? = none := rfl

@[simp] theorem binding?_superclass {className : Token} :
    (⟨.superclass className m, p⟩ : Visit).binding? =
      (p.distance? m.name).map (⟨.variable, m, ·⟩) := by
  simp [binding?, mention?, Subject.mention?]

theorem binding?_mention {form : MentionForm} (inside : form = .this → p.context.inClass ≠ .outside) :
    (⟨.mention form m, p⟩ : Visit).binding? = (p.distance? m.name).map (⟨form, m, ·⟩) := by
  simp only [binding?, mention?, Subject.mention?]
  exact if_neg fun this => inside this.1 this.2

end Visit

mutual

/-- The visits of an expression. The value of a property assignment comes before its object. -/
def Expr.visits (p : Place) : Expr → List Visit
  | .literal _ => []
  | .grouping inner => inner.visits p
  | .name target => [⟨.mention .variable target, p⟩]
  | .assign target value => value.visits p ++ [⟨.mention .assignment target, p⟩]
  | .unary _ operand => operand.visits p
  | .binary left _ right => left.visits p ++ right.visits p
  | .logical left _ right => left.visits p ++ right.visits p
  | .call callee _ arguments => callee.visits p ++ Expr.allVisits p arguments
  | .get object _ => object.visits p
  | .set object _ value => value.visits p ++ object.visits p
  | .this keyword => [⟨.mention .this keyword, p⟩]
  | .super keyword _ => [⟨.mention .super keyword, p⟩]

def Expr.allVisits (p : Place) : List Expr → List Visit
  | [] => []
  | e :: rest => e.visits p ++ Expr.allVisits p rest

end

/-- The visits of parameters, given the place inside the scope of the function. -/
def Place.parameterVisits : Place → List Token → List Visit
  | _, [] => []
  | p, name :: rest => ⟨.declaration name, p⟩ :: parameterVisits (p.declareComplete name) rest

/-- The visit of the superclass of a class declaration. The class is declared by then. -/
def Place.superclassVisits (p : Place) (text : ClassText) : List Visit :=
  match text.superclass with
  | none => []
  | some mention => [⟨.superclass text.name.token mention, p.declareComplete text.name.token⟩]

mutual

/-- The visits of a statement. -/
def Stmt.visits (p : Place) : Stmt → List Visit
  | .expression value => value.visits p
  | .print value => value.visits p
  | .var name none => [⟨.declaration name, p⟩]
  | .var name (some initializer) =>
    ⟨.declaration name, p⟩ :: initializer.visits (p.declare name)
  | .block body => Stmt.allVisits (p.enter .empty (.block body)) body
  | .ite condition thenBranch none => condition.visits p ++ thenBranch.visits p
  | .ite condition thenBranch (some elseBranch) =>
    condition.visits p ++ thenBranch.visits p ++ elseBranch.visits (thenBranch.after p)
  | .while condition body => condition.visits p ++ body.visits p
  | .function declaration =>
    ⟨.declaration declaration.name, p⟩ ::
      declaration.visits ((p.declareComplete declaration.name).withFunction .function)
  | .return keyword none => [⟨.result keyword false, p⟩]
  | .return keyword (some value) => ⟨.result keyword true, p⟩ :: value.visits p
  | .class name superclass methods =>
    ⟨.declaration name.token, p⟩ :: p.superclassVisits ⟨name, superclass, methods⟩ ++
      Function.methodVisits (p.enterClass ⟨name, superclass, methods⟩) methods

/-- The visits of statements in order. -/
def Stmt.allVisits (p : Place) : List Stmt → List Visit
  | [] => []
  | s :: rest => s.visits p ++ Stmt.allVisits (s.after p) rest

/-- The visits of a function, given the place around it with the kind of function that it is. -/
def Function.visits (p : Place) : Function → List Visit
  | .mk name parameters body =>
    (p.enter .empty (.function (.mk name parameters body))).parameterVisits parameters ++
      Stmt.allVisits (p.enterFunction (.mk name parameters body)) body

/-- The visits of the methods of a class, given the place inside its implicit scopes. -/
def Function.methodVisits (p : Place) : List Function → List Visit
  | [] => []
  | f :: rest => f.visits (p.withFunction f.methodContext) ++ Function.methodVisits p rest

end

theorem Expr.visits_sub_allVisits (p : Place) {e : Expr} {es : List Expr} (member : e ∈ es) :
    ∀ v ∈ e.visits p, v ∈ Expr.allVisits p es := by
  intro v visited
  induction es with
  | nil => cases member
  | cons first rest inductionHypothesis =>
    rw [Expr.allVisits, List.mem_append]
    rcases List.mem_cons.1 member with rfl | member
    · exact .inl visited
    · exact .inr (inductionHypothesis member)

theorem Function.visits_eq (p : Place) (f : Function) :
    f.visits p = (p.enter .empty (.function f)).parameterVisits f.parameters ++
      Stmt.allVisits (p.enterFunction f) f.body := by
  obtain ⟨name, parameters, body⟩ := f
  rw [Function.visits]
  rfl

/-- The visits of a program. -/
def programVisits (program : Program) : List Visit := Stmt.allVisits .topLevel program

end Lox
