import Lox.Proofs.Scope.Subjects
import Lox.Proofs.Scope.Visits

/-!
# Regular places

The scopes around a place follow one pattern: those of blocks and functions hold no implicit name,
and the body of a method lies directly inside the implicit scope of its class, itself directly inside
the one for the superclass if there is a superclass. So the distances of `this` and `super` tell in
which method of which class a place lies.
-/

namespace Lox

/-- A scope that holds none of the implicit names. -/
def Scope.Plain (scope : Scope) : Prop := ∀ name, scope.contains name = true → IsOrdinary name

theorem Scope.Plain.empty : Scope.Plain .empty := by
  simp [Scope.Plain, Table.contains]

theorem Scope.Plain.insert {scope : Scope} (plain : scope.Plain) {name : String}
    (ordinary : IsOrdinary name) (complete : Bool) : Scope.Plain (scope.insert name complete) := by
  intro other present
  rw [Table.contains_insert, Bool.or_eq_true, decide_eq_true_eq] at present
  rcases present with rfl | present
  · exact ordinary
  · exact plain other present

theorem Scope.Plain.this {scope : Scope} (plain : scope.Plain) : scope.contains "this" = false :=
  Bool.eq_false_iff.2 fun present => (plain _ present).1 rfl

theorem Scope.Plain.super {scope : Scope} (plain : scope.Plain) : scope.contains "super" = false :=
  Bool.eq_false_iff.2 fun present => (plain _ present).2 rfl

/-- The levels around a place in a class of the given kind. -/
inductive Regular : List Level → ClassContext → Prop where
  | topLevel : Regular [] .outside
  | block {scope : Scope} {body : List Stmt} {levels : List Level} {inClass : ClassContext} :
      scope.Plain → Regular levels inClass → Regular (⟨scope, .block body⟩ :: levels) inClass
  | function {scope : Scope} {f : Function} {levels : List Level} {inClass : ClassContext} :
      scope.Plain → Regular levels inClass → Regular (⟨scope, .function f⟩ :: levels) inClass
  | method {scope : Scope} {f : Function} {text : ClassText} {levels : List Level}
      {around : ClassContext} :
      scope.Plain → text.superclass = none → f ∈ text.methods → Regular levels around →
      Regular (⟨scope, .function f⟩ :: ⟨Resolver.implicitScope "this", .this text⟩ :: levels)
        .baseClass
  | subclassMethod {scope : Scope} {f : Function} {text : ClassText} {levels : List Level}
      {around : ClassContext} :
      scope.Plain → text.superclass.isSome → f ∈ text.methods → Regular levels around →
      Regular (⟨scope, .function f⟩ :: ⟨Resolver.implicitScope "this", .this text⟩ ::
        ⟨Resolver.implicitScope "super", .super text⟩ :: levels) .subclass

def Place.IsRegular (p : Place) : Prop := Regular p.levels p.context.inClass

/-- The innermost scope around a regular place holds no implicit name. -/
theorem Place.IsRegular.head_plain {p : Place} (regular : p.IsRegular) :
    ∀ level ∈ p.levels.head?, level.scope.Plain := by
  obtain ⟨levels, inFunction, inClass⟩ := p
  unfold Place.IsRegular at regular
  dsimp only at regular ⊢
  cases regular with
  | topLevel => rintro _ ⟨⟩
  | block plain | function plain | method plain | subclassMethod plain =>
    rintro _ ⟨⟩
    exact plain

/-- Outside of classes no scope holds the name of an instance. -/
theorem Regular.this_absent {levels : List Level} {inClass : ClassContext}
    (regular : Regular levels inClass) (outside : inClass = .outside) :
    ∀ level ∈ levels, level.scope.contains "this" = false := by
  induction regular with
  | topLevel => rintro _ ⟨⟩
  | block plain _ inductionHypothesis | function plain _ inductionHypothesis =>
    exact List.forall_mem_cons.2 ⟨Scope.Plain.this plain, inductionHypothesis outside⟩
  | method | subclassMethod => cases outside

theorem Place.IsRegular.this_unbound {p : Place} (regular : p.IsRegular)
    (outside : p.context.inClass = .outside) : p.distance? "this" = none := by
  refine List.findIdx?_eq_none_iff.2 fun scope member => ?_
  obtain ⟨level, inside, rfl⟩ := List.mem_map.1 member
  exact Regular.this_absent regular outside level inside

/-! ## The method around a place -/

/--
Method `method` of class `text` is the innermost method around the levels: `inner` are the levels
inside the scope of the method, and `outer` are those outside of the implicit scope of the class.
-/
structure MethodAround (levels : List Level) (inner outer : List Level) (method : Function)
    (text : ClassText) : Prop where
  split : ∃ scope, scope.Plain ∧
    levels = inner ++ ⟨scope, .function method⟩ ::
      ⟨Resolver.implicitScope "this", .this text⟩ :: outer
  plain : ∀ level ∈ inner, level.scope.Plain
  noClass : ∀ level ∈ inner, ∀ other, level.origin ≠ .this other ∧ level.origin ≠ .super other
  member : method ∈ text.methods

theorem MethodAround.cons {levels inner outer : List Level} {method : Function} {text : ClassText}
    (around : MethodAround levels inner outer method text) {level : Level} (plain : level.scope.Plain)
    (noClass : ∀ other, level.origin ≠ .this other ∧ level.origin ≠ .super other) :
    MethodAround (level :: levels) (level :: inner) outer method text := by
  obtain ⟨⟨scope, scopePlain, split⟩, innerPlain, innerNoClass, member⟩ := around
  exact ⟨⟨scope, scopePlain, by rw [split]; rfl⟩, List.forall_mem_cons.2 ⟨plain, innerPlain⟩,
    List.forall_mem_cons.2 ⟨noClass, innerNoClass⟩, member⟩

theorem MethodAround.here {scope : Scope} {outer : List Level} {method : Function} {text : ClassText}
    (plain : scope.Plain) (member : method ∈ text.methods) :
    MethodAround (⟨scope, .function method⟩ :: ⟨Resolver.implicitScope "this", .this text⟩ :: outer)
      [] outer method text :=
  ⟨⟨scope, plain, rfl⟩, by simp, by simp, member⟩

/-- A regular place in a class lies in a method of it. -/
theorem Regular.methodAround {levels : List Level} {inClass : ClassContext}
    (regular : Regular levels inClass) (inside : inClass ≠ .outside) :
    ∃ inner outer method text, MethodAround levels inner outer method text ∧
      (inClass = .subclass → text.superclass.isSome ∧
        ∃ rest, outer = ⟨Resolver.implicitScope "super", .super text⟩ :: rest) := by
  induction regular with
  | topLevel => exact absurd rfl inside
  | block plain _ inductionHypothesis | function plain _ inductionHypothesis =>
    obtain ⟨inner, outer, method, text, around, super⟩ := inductionHypothesis inside
    exact ⟨_, outer, method, text, around.cons plain (by simp), super⟩
  | method plain none member _ _ => exact ⟨[], _, _, _, .here plain member, by simp⟩
  | subclassMethod plain some member _ _ =>
    exact ⟨[], _, _, _, .here plain member, fun _ => ⟨some, _, rfl⟩⟩

theorem findIdx?_append_of_absent {α : Type} {p : α → Bool} {before after : List α} {a : α}
    (absent : ∀ x ∈ before, p x = false) (present : p a = true) :
    (before ++ a :: after).findIdx? p = some before.length := by
  induction before with
  | nil => simp [List.findIdx?_cons, present]
  | cons x rest inductionHypothesis =>
    obtain ⟨absentHere, absentRest⟩ := List.forall_mem_cons.1 absent
    simp [List.findIdx?_cons, absentHere, inductionHypothesis absentRest]

namespace MethodAround

variable {p : Place} {inner outer : List Level} {method : Function} {text : ClassText}

theorem distance_this (around : MethodAround p.levels inner outer method text) :
    p.distance? "this" = some (inner.length + 1) := by
  obtain ⟨⟨scope, scopePlain, split⟩, plain, -, -⟩ := around
  have scopes : p.scopes = (inner.map Level.scope ++ [scope]) ++
      Resolver.implicitScope "this" :: outer.map Level.scope := by
    simp [Place.scopes, split]
  rw [Place.distance?, scopes, findIdx?_append_of_absent]
  · simp
  · intro other found
    simp only [List.mem_append, List.mem_map, List.mem_singleton] at found
    rcases found with ⟨level, found, rfl⟩ | rfl
    · exact (plain level found).this
    · exact scopePlain.this
  · rfl

theorem distance_super (around : MethodAround p.levels inner outer method text) {rest : List Level}
    (super : outer = ⟨Resolver.implicitScope "super", .super text⟩ :: rest) :
    p.distance? "super" = some (inner.length + 2) := by
  obtain ⟨⟨scope, scopePlain, split⟩, plain, -, -⟩ := around
  have scopes : p.scopes = (inner.map Level.scope ++ [scope, Resolver.implicitScope "this"]) ++
      Resolver.implicitScope "super" :: rest.map Level.scope := by
    simp [Place.scopes, split, super]
  rw [Place.distance?, scopes, findIdx?_append_of_absent]
  · simp
  · intro other found
    simp only [List.mem_append, List.mem_map, List.mem_cons, List.not_mem_nil, or_false] at found
    rcases found with ⟨level, found, rfl⟩ | rfl | rfl
    · exact (plain level found).super
    · exact scopePlain.super
    · rfl
  · rfl

/-- The innermost method is determined by the levels around a place. -/
theorem unique {levels inner' outer' : List Level} {method' : Function} {text' : ClassText}
    (around : MethodAround levels inner outer method text)
    (around' : MethodAround levels inner' outer' method' text') :
    inner = inner' ∧ outer = outer' ∧ method = method' ∧ text = text' := by
  have here := distance_this (p := ⟨levels, .topLevel⟩) around
  rw [distance_this (p := ⟨levels, .topLevel⟩) around'] at here
  have length : inner.length = inner'.length := (Nat.succ.inj (Option.some.inj here)).symm
  obtain ⟨_, -, split⟩ := around.split
  obtain ⟨_, -, split'⟩ := around'.split
  obtain ⟨sameInner, rest⟩ := List.append_inj (split.symm.trans split') length
  simp only [List.cons.injEq, Level.mk.injEq, Origin.function.injEq, Origin.this.injEq,
    true_and] at rest
  exact ⟨sameInner, rest.2.2, rest.1.2, rest.2.1⟩

end MethodAround

/-! ## All places of a program are regular -/

/-- The innermost scope around the place has the name in its text. -/
def Place.Declares (p : Place) (name : Token) : Prop :=
  ∀ level ∈ p.levels.head?, name.lexeme ∈ level.origin.names

/-- What holds of every visit of a program. -/
structure Visit.Lawful (v : Visit) : Prop where
  regular : v.place.IsRegular
  spelled : v.subject.Spelled
  declared : ∀ name, v.subject = .declaration name → v.place.Declares name

theorem Place.IsRegular.mark {p : Place} (regular : p.IsRegular) {name : String}
    (ordinary : IsOrdinary name) (complete : Bool) : (p.mark name complete).IsRegular := by
  obtain ⟨levels, inFunction, inClass⟩ := p
  cases regular with
  | topLevel => exact .topLevel
  | block plain outer => exact .block (plain.insert ordinary complete) outer
  | function plain outer => exact .function (plain.insert ordinary complete) outer
  | method plain none member outer => exact .method (plain.insert ordinary complete) none member outer
  | subclassMethod plain some member outer =>
    exact .subclassMethod (plain.insert ordinary complete) some member outer

theorem Place.IsRegular.declareComplete {p : Place} (regular : p.IsRegular) {name : Token}
    (ordinary : IsOrdinary name.lexeme) : (p.declareComplete name).IsRegular :=
  (regular.mark ordinary false).mark ordinary true

theorem Place.Declares.advance {p q : Place} {name : Token} (declares : p.Declares name)
    (advances : p.Advances q) : q.Declares name := by
  obtain ⟨levels, context⟩ := p
  obtain ⟨levels', context'⟩ := q
  have origins := advances.origins
  cases levels <;> cases levels' <;> simp_all [Place.Declares]

/-- A place that is regular inside every function that is declared there. -/
def Place.FunctionRegular (p : Place) (f : Function) : Prop :=
  ∀ scope : Scope, scope.Plain → (p.enter scope (.function f)).IsRegular

theorem Stmt.after_regular {s : Stmt} (placed : s.WellPlaced) (spelled : ∀ x ∈ s.subjects, x.Spelled)
    {p : Place} (regular : p.IsRegular) : (s.after p).IsRegular := by
  cases declared : s.declared? with
  | none =>
    rw [Stmt.after_of_not_declared p s placed declared]
    exact regular
  | some name =>
    rw [Stmt.after_of_declared p declared]
    exact regular.declareComplete (spelled _ (Stmt.declaration_mem_subjects declared))

mutual

theorem Expr.place_visits (p : Place) (e : Expr) :
    ∀ v ∈ e.visits p, v.place = p ∧ ∀ name, v.subject ≠ .declaration name := by
  cases e with
  | literal | name | this | super => simp [Expr.visits]
  | grouping inner => exact Expr.place_visits p inner
  | unary operator operand => exact Expr.place_visits p operand
  | get object property => exact Expr.place_visits p object
  | assign target value =>
    exact List.forall_mem_append.2 ⟨Expr.place_visits p value, by simp⟩
  | binary left operator right | logical left operator right =>
    exact List.forall_mem_append.2 ⟨Expr.place_visits p left, Expr.place_visits p right⟩
  | call callee paren arguments =>
    exact List.forall_mem_append.2 ⟨Expr.place_visits p callee, Expr.place_allVisits p arguments⟩
  | set object property value =>
    exact List.forall_mem_append.2 ⟨Expr.place_visits p value, Expr.place_visits p object⟩

theorem Expr.place_allVisits (p : Place) (es : List Expr) :
    ∀ v ∈ Expr.allVisits p es, v.place = p ∧ ∀ name, v.subject ≠ .declaration name := by
  cases es with
  | nil => simp [Expr.allVisits]
  | cons e rest =>
    exact List.forall_mem_append.2 ⟨Expr.place_visits p e, Expr.place_allVisits p rest⟩

end

theorem Expr.visits_lawful {p : Place} (regular : p.IsRegular) {e : Expr}
    (spelled : ∀ x ∈ e.subjects, x.Spelled) : ∀ v ∈ e.visits p, v.Lawful := by
  intro v visited
  obtain ⟨here, mentions⟩ := Expr.place_visits p e v visited
  have subject : v.subject ∈ e.subjects := by
    rw [← Expr.map_subject_visits p e]
    exact List.mem_map_of_mem visited
  exact ⟨here ▸ regular, spelled _ subject, fun name declared => absurd declared (mentions name)⟩

theorem Place.parameterVisits_lawful {p : Place} {parameters : List Token} (regular : p.IsRegular)
    (spelled : ∀ name ∈ parameters, IsOrdinary name.lexeme)
    (declares : ∀ name ∈ parameters, p.Declares name) :
    ∀ v ∈ p.parameterVisits parameters, v.Lawful := by
  induction parameters generalizing p with
  | nil => simp [Place.parameterVisits]
  | cons name rest inductionHypothesis =>
    obtain ⟨spelledHere, spelledRest⟩ := List.forall_mem_cons.1 spelled
    obtain ⟨declaresHere, declaresRest⟩ := List.forall_mem_cons.1 declares
    refine List.forall_mem_cons.2 ⟨⟨regular, spelledHere, ?_⟩, ?_⟩
    · rintro other ⟨⟩
      exact declaresHere
    · exact inductionHypothesis (regular.declareComplete spelledHere) spelledRest fun other found =>
        (declaresRest other found).advance (.declareComplete p name)

theorem Place.IsRegular.parameters {p : Place} {parameters : List Token} (regular : p.IsRegular)
    (spelled : ∀ name ∈ parameters, IsOrdinary name.lexeme) :
    (parameters.foldl Place.declareComplete p).IsRegular := by
  induction parameters generalizing p with
  | nil => exact regular
  | cons name rest inductionHypothesis =>
    obtain ⟨spelledHere, spelledRest⟩ := List.forall_mem_cons.1 spelled
    exact inductionHypothesis (regular.declareComplete spelledHere) spelledRest

/-- The place inside the implicit scopes of a class is regular inside every method of the class. -/
theorem Place.enterClass_functionRegular {p : Place} (regular : p.IsRegular) (text : ClassText)
    (ordinary : IsOrdinary text.name.name) {f : Function} (member : f ∈ text.methods)
    (kind : FunctionContext) : ((p.enterClass text).withFunction kind).FunctionRegular f := by
  intro scope plain
  have around := regular.declareComplete ordinary
  have context := Place.enterClass_context p text
  obtain ⟨name, superclass, methods⟩ := text
  cases superclass with
  | none =>
    rw [Place.IsRegular, Place.withFunction, Place.enter, context]
    exact .method plain rfl member around
  | some parent =>
    rw [Place.IsRegular, Place.withFunction, Place.enter, context]
    exact .subclassMethod plain rfl member around

mutual

theorem Stmt.visits_lawful (p : Place) (regular : p.IsRegular) :
    ∀ s : Stmt, (∀ x ∈ s.subjects, x.Spelled) → s.WellPlaced →
      (∀ name, s.declared? = some name → p.Declares name) → ∀ v ∈ s.visits p, v.Lawful
  | .expression value, spelled, _, _ | .print value, spelled, _, _ =>
    Expr.visits_lawful regular spelled
  | .var name none, spelled, _, declares => by
    rw [Stmt.subjects] at spelled
    rw [Stmt.visits]
    refine List.forall_mem_singleton.2 ⟨regular, spelled _ (by simp), ?_⟩
    rintro other ⟨⟩
    exact declares _ rfl
  | .var name (some initializer), spelled, _, declares => by
    rw [Stmt.subjects] at spelled
    obtain ⟨spelledName, spelledValue⟩ := List.forall_mem_cons.1 spelled
    rw [Stmt.visits]
    refine List.forall_mem_cons.2 ⟨⟨regular, spelledName, ?_⟩, ?_⟩
    · rintro other ⟨⟩
      exact declares _ rfl
    · exact Expr.visits_lawful (regular.mark spelledName false) spelledValue
  | .block body, spelled, placed, _ => by
    rw [Stmt.subjects] at spelled
    rw [Stmt.WellPlaced] at placed
    rw [Stmt.visits]
    refine Stmt.allVisits_lawful (p.enter .empty (.block body)) (.block .empty regular) body spelled
      placed fun s member name
      declared => ?_
    rintro level ⟨⟩
    exact List.mem_map_of_mem (List.mem_filterMap.2 ⟨s, member, declared⟩)
  | .ite condition thenBranch none, spelled, placed, _ => by
    rw [Stmt.subjects] at spelled
    rw [Stmt.WellPlaced] at placed
    obtain ⟨spelledCondition, spelledThen⟩ := List.forall_mem_append.1 spelled
    rw [Stmt.visits]
    refine List.forall_mem_append.2 ⟨Expr.visits_lawful regular spelledCondition, ?_⟩
    exact Stmt.visits_lawful p regular thenBranch spelledThen placed.2 (by simp [placed.1])
  | .ite condition thenBranch (some elseBranch), spelled, placed, _ => by
    rw [Stmt.subjects] at spelled
    rw [Stmt.WellPlaced] at placed
    obtain ⟨spelledBoth, spelledElse⟩ := List.forall_mem_append.1 spelled
    obtain ⟨spelledCondition, spelledThen⟩ := List.forall_mem_append.1 spelledBoth
    obtain ⟨⟨silentThen, placedThen⟩, silentElse, placedElse⟩ := placed
    -- The first branch declares nothing, so the second one is visited at the same place.
    rw [Stmt.visits, Stmt.after_of_not_declared p thenBranch placedThen silentThen]
    refine List.forall_mem_append.2 ⟨List.forall_mem_append.2
      ⟨Expr.visits_lawful regular spelledCondition, ?_⟩, ?_⟩
    · exact Stmt.visits_lawful p regular thenBranch spelledThen placedThen (by simp [silentThen])
    · exact Stmt.visits_lawful p regular elseBranch spelledElse placedElse (by simp [silentElse])
  | .while condition body, spelled, placed, _ => by
    rw [Stmt.subjects] at spelled
    rw [Stmt.WellPlaced] at placed
    obtain ⟨spelledCondition, spelledBody⟩ := List.forall_mem_append.1 spelled
    rw [Stmt.visits]
    refine List.forall_mem_append.2 ⟨Expr.visits_lawful regular spelledCondition, ?_⟩
    exact Stmt.visits_lawful p regular body spelledBody placed.2 (by simp [placed.1])
  | .function declaration, spelled, placed, declares => by
    rw [Stmt.subjects] at spelled
    rw [Stmt.WellPlaced] at placed
    obtain ⟨spelledName, spelledFunction⟩ := List.forall_mem_cons.1 spelled
    rw [Stmt.visits]
    refine List.forall_mem_cons.2 ⟨⟨regular, spelledName, ?_⟩, ?_⟩
    · rintro other ⟨⟩
      exact declares _ rfl
    · -- The name is complete where the body is visited: a function may call itself.
      exact Function.visits_lawful _ declaration
        (fun scope plain => .function plain (regular.declareComplete spelledName))
        spelledFunction placed
  | .return keyword none, _, _, _ => by
    rw [Stmt.visits]
    exact List.forall_mem_singleton.2 ⟨regular, trivial, by rintro _ ⟨⟩⟩
  | .return keyword (some value), spelled, _, _ => by
    rw [Stmt.subjects] at spelled
    obtain ⟨-, spelledValue⟩ := List.forall_mem_cons.1 spelled
    rw [Stmt.visits]
    exact List.forall_mem_cons.2 ⟨⟨regular, trivial, by rintro _ ⟨⟩⟩,
      Expr.visits_lawful regular spelledValue⟩
  | .class name superclass methods, spelled, placed, declares => by
    rw [Stmt.subjects] at spelled
    rw [Stmt.WellPlaced] at placed
    obtain ⟨spelledHead, spelledMethods⟩ := List.forall_mem_append.1 spelled
    obtain ⟨spelledName, spelledSuperclass⟩ := List.forall_mem_cons.1 spelledHead
    rw [Stmt.visits]
    refine List.forall_mem_append.2 ⟨List.forall_mem_cons.2 ⟨⟨regular, spelledName, ?_⟩, ?_⟩, ?_⟩
    · rintro other ⟨⟩
      exact declares _ rfl
    · cases superclass with
      | none => simp [Place.superclassVisits]
      | some parent =>
        refine List.forall_mem_singleton.2 ⟨regular.declareComplete spelledName,
          spelledSuperclass _ (by simp), by rintro _ ⟨⟩⟩
    · exact Function.methodVisits_lawful _ methods
        (fun f member => Place.enterClass_functionRegular regular ⟨name, superclass, methods⟩
          spelledName member _) spelledMethods placed

theorem Stmt.allVisits_lawful (p : Place) (regular : p.IsRegular) :
    ∀ ss : List Stmt, (∀ x ∈ Stmt.allSubjects ss, x.Spelled) → Stmt.AllWellPlaced ss →
      (∀ s ∈ ss, ∀ name, s.declared? = some name → p.Declares name) →
      ∀ v ∈ Stmt.allVisits p ss, v.Lawful
  | [], _, _, _ => by simp [Stmt.allVisits]
  | s :: rest, spelled, placed, declares => by
    rw [Stmt.allSubjects] at spelled
    rw [Stmt.AllWellPlaced] at placed
    obtain ⟨spelledHere, spelledRest⟩ := List.forall_mem_append.1 spelled
    obtain ⟨declaresHere, declaresRest⟩ := List.forall_mem_cons.1 declares
    rw [Stmt.allVisits]
    refine List.forall_mem_append.2
      ⟨Stmt.visits_lawful p regular s spelledHere placed.1 declaresHere, ?_⟩
    exact Stmt.allVisits_lawful _ (Stmt.after_regular placed.1 spelledHere regular) rest spelledRest
      placed.2 fun other member name declared =>
        (declaresRest other member name declared).advance (s.after_advances p)

theorem Function.visits_lawful (p : Place) :
    ∀ f : Function, p.FunctionRegular f → (∀ x ∈ f.subjects, x.Spelled) → f.WellPlaced →
      ∀ v ∈ f.visits p, v.Lawful
  | .mk name parameters body, regular, spelled, placed => by
    rw [Function.subjects] at spelled
    rw [Function.WellPlaced] at placed
    obtain ⟨spelledParameters, spelledBody⟩ := List.forall_mem_append.1 spelled
    have ordinary : ∀ name ∈ parameters, IsOrdinary name.lexeme := fun name member =>
      spelledParameters _ (List.mem_map_of_mem member)
    have entered := regular .empty .empty
    rw [Function.visits]
    -- Parameters and locals share a scope, and the function declares the names of both.
    refine List.forall_mem_append.2 ⟨?_, ?_⟩
    · refine Place.parameterVisits_lawful entered ordinary fun parameter member => ?_
      rintro level ⟨⟩
      exact List.mem_map_of_mem (List.mem_append_left _ member)
    · refine Stmt.allVisits_lawful _ (entered.parameters ordinary) body spelledBody placed
        fun s member parameter declared => ?_
      refine Place.Declares.advance ?_ (Place.enterFunction_advances p (.mk name parameters body))
      rintro level ⟨⟩
      exact List.mem_map_of_mem (List.mem_append_right _ (List.mem_filterMap.2 ⟨s, member, declared⟩))

theorem Function.methodVisits_lawful (p : Place) :
    ∀ fs : List Function, (∀ f ∈ fs, (p.withFunction f.methodContext).FunctionRegular f) →
      (∀ x ∈ Function.allSubjects fs, x.Spelled) → Function.AllWellPlaced fs →
      ∀ v ∈ Function.methodVisits p fs, v.Lawful
  | [], _, _, _ => by simp [Function.methodVisits]
  | f :: rest, regular, spelled, placed => by
    rw [Function.allSubjects] at spelled
    rw [Function.AllWellPlaced] at placed
    obtain ⟨spelledHere, spelledRest⟩ := List.forall_mem_append.1 spelled
    obtain ⟨regularHere, regularRest⟩ := List.forall_mem_cons.1 regular
    rw [Function.methodVisits]
    exact List.forall_mem_append.2 ⟨Function.visits_lawful _ f regularHere spelledHere placed.1,
      Function.methodVisits_lawful p rest regularRest spelledRest placed.2⟩

end

/-- The visits of a program whose names are spelled right and whose declarations are well placed. -/
theorem programVisits_lawful {program : Program}
    (spelled : ∀ x ∈ Stmt.allSubjects program, x.Spelled) (placed : Stmt.AllWellPlaced program) :
    ∀ v ∈ programVisits program, v.Lawful :=
  Stmt.allVisits_lawful .topLevel .topLevel program spelled placed
    (by rintro _ _ _ _ _ ⟨⟩)

end Lox
