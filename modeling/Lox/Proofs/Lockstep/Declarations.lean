import Lox.Proofs.Lockstep.Objects

/-!
# Declarations in step

A variable is declared once its value is there, a function and a class before anything can mention
them. The scope of the declaration then has the name as complete, and the functions that are made close
over it.
-/

namespace Lox

open Lexical (CellId Names Store LexicalRun)

variable {V : Visit → Prop} {D : Distances} {α β γ : Type}

/-! ## Places of declarations -/

theorem Place.Settled.declareComplete {p : Place} (settled : p.Settled) (name : Token) :
    (p.declareComplete name).Settled := by
  obtain ⟨levels, context⟩ := p
  cases levels with
  | nil => exact settled
  | cons level outer =>
    obtain ⟨settledHere, settledOuter⟩ := List.forall_mem_cons.1 settled
    refine List.forall_mem_cons.2 ⟨fun x present => ?_, settledOuter⟩
    rw [Table.contains, find?_declareComplete] at present
    rw [find?_declareComplete]
    split
    · rfl
    · next other =>
      rw [if_neg other] at present
      exact settledHere x present

theorem Place.Settled.enter {p : Place} (settled : p.Settled) {scope : Scope} (origin : Origin)
    (settledHere : scope.Settled) : (p.enter scope origin).Settled :=
  List.forall_mem_cons.2 ⟨settledHere, settled⟩

/-- The levels around the place that the methods of a class close over. -/
def Place.methodLevels (p : Place) (text : ClassText) : List Level :=
  match text.superclass with
  | none => (p.declareComplete text.name.token).levels
  | some _ =>
    ⟨Resolver.implicitScope "super", .super text⟩ :: (p.declareComplete text.name.token).levels

theorem Place.enterClass_levels (p : Place) (text : ClassText) :
    (p.enterClass text).levels =
      ⟨Resolver.implicitScope "this", .this text⟩ :: p.methodLevels text := by
  obtain ⟨name, superclass, methods⟩ := text
  cases superclass <;> rfl

theorem Place.Settled.enterClass {p : Place} (settled : p.Settled) (text : ClassText) :
    (p.enterClass text).Settled := by
  have declared := settled.declareComplete text.name.token
  rw [Place.Settled, Place.enterClass_levels, Place.methodLevels]
  refine List.forall_mem_cons.2 ⟨settled_implicitScope _, ?_⟩
  cases text.superclass with
  | none => exact declared
  | some _ => exact List.forall_mem_cons.2 ⟨settled_implicitScope _, declared⟩

/-- What the resolver found at a declaration. -/
structure Place.Accepts (p : Place) (name : Token) : Prop where
  regular : p.IsRegular
  ordinary : IsOrdinary name.lexeme
  declares : p.Declares name
  new : ∀ level ∈ p.levels.head?, level.scope.contains name.lexeme = false

theorem Ruled.accepts (ruled : Ruled V D) {name : Token} {p : Place}
    (visited : V ⟨.declaration name, p⟩) : p.Accepts name := by
  have lawful := ruled.lawful _ visited
  refine ⟨lawful.regular, lawful.spelled, lawful.declared name rfl, fun level head => ?_⟩
  have faultless := ruled.faultless _ visited
  obtain ⟨levels, context⟩ := p
  cases levels with
  | nil => cases head
  | cons first outer =>
    obtain rfl := Option.some.inj head
    cases present : first.scope.contains name.lexeme with
    | false => rfl
    | true => simp [Visit.faults, present] at faultless

/-- While a name is declared but not complete, everything means what it meant before. -/
theorem World.Stands.declare {W : World} {e : EnvironmentId} {p : Place} {names : Names}
    (stands : W.Stands e p names) {name : Token} (accepts : p.Accepts name) :
    W.Stands e (p.declare name) names := by
  have new := accepts.new
  obtain ⟨levels, context⟩ := p
  cases levels with
  | nil => exact stands
  | cons level outer =>
    -- The new entry is not complete, and it hides no entry that was.
    have same : ∀ x, (level.scope.insert name.lexeme false).find? x = some true ↔
        level.scope.find? x = some true := by
      intro x
      rw [Table.find?_insert]
      by_cases equal : name.lexeme = x
      · subst equal
        have absent := new level rfl
        rw [Table.contains, Option.isSome_eq_false_iff, Option.isNone_iff_eq_none] at absent
        simp [absent]
      · simp [equal]
    obtain ⟨frame, known, origin, complete, around, outside, found⟩ := stands.scope
    refine ⟨⟨frame, known, origin, fun x flagged => complete x ((same x).1 flagged), around, outside,
      fun x => ?_⟩, ?_, ?_, stands.tail⟩
    · simp only [found x, same x]
    · simpa [Place.declare, Place.mark] using stands.global
    · rintro frame' known' level' ⟨⟩ x c present
      exact (same x).2 (stands.exact frame' known' level rfl x c present)

theorem Place.declare_lacks (p : Place) (name : Token) : (p.declare name).Lacks name.lexeme := by
  obtain ⟨levels, context⟩ := p
  cases levels with
  | nil => rintro _ ⟨⟩
  | cons level outer =>
    rintro _ ⟨⟩
    simp

/-! ## Names -/

/-- The name gets its value, and is complete. -/
theorem Joint.declare_lockstep {j : Joint V D} {p : Place} {names : Names} {name : Token}
    (accepts : p.Accepts name) (stands : j.Stands (p.declare name) names) {value : Value}
    (fits : j.world.Fits value) :
    j.Lockstep (some j.current) (NotedRun.lift (Run.define name.lexeme value))
      (LexicalRun.declare names name.lexeme value) fun j' _ names' =>
        j'.Stands (p.declareComplete name) names' ∧
          j'.Declared (p.declareComplete name) name.lexeme :=
  j.define_lockstep stands (p.declare_lacks name)
    (accepts.declares.advance (.mark p name.lexeme false)) fits

section Declared

variable {j : Joint V D} {p : Place} {names : Names} {name : Token}
variable (stands : j.Stands p names) (declared : j.Declared p name.lexeme)
include stands declared

/-- The environment that is running holds a name that has been declared there. -/
theorem Joint.declared_present :
    (j.heap.environmentAt j.current).names.contains name.lexeme = true ∧
      j.current.index < j.heap.environments.size := by
  have real := j.related.real
  have scope := stands.scope
  cases levels : p.levels with
  | nil =>
    rw [levels] at scope
    rw [show j.current = j.world.globals from scope.1,
      show j.heap.environmentAt j.world.globals = _ from real.globalNames]
    exact ⟨declared.2 levels, real.globals⟩
  | cons level outer =>
    rw [levels] at scope
    obtain ⟨frame, known, -, complete, -⟩ := scope
    obtain ⟨c, cell⟩ := complete name.lexeme (declared.1 level (by rw [levels]; rfl))
    have here := real.frames _ frame known
    refine ⟨?_, here.inBounds⟩
    rw [Table.contains, show (j.heap.environmentAt j.current).names.find? name.lexeme = _ from
      here.holds name.lexeme, cell]
    rfl

/-- A name that has been declared gets another value. -/
theorem Joint.complete_lockstep (ordinary : IsOrdinary name.lexeme) {value : Value}
    (fits : j.world.Fits value) :
    j.Lockstep none (NotedRun.lift (Run.defineIn j.current name.lexeme value))
      (LexicalRun.complete names name.lexeme value) fun _ _ _ => True := by
  have related := j.related
  have scope := stands.scope
  cases levels : p.levels with
  | nil =>
    -- Outside all scopes the name is a global one, in a scope it has a cell by now.
    rw [levels] at scope
    have real : j.world.Real (j.heap.define j.world.globals name.lexeme value) _ :=
      related.real.defineGlobal related.sound.globals _ fits
    rw [← show j.current = j.world.globals from scope.1] at real
    refine .change (a := ()) (b := ()) (by rw [← related.moments]; rfl) ?_ (.refl _) related.sound
      real { related.alike with } ⟨rfl, rfl, rfl, rfl, fun x => (Table.contains_insert_of_contains ·)⟩
      fun _ _ _ _ => trivial
    rw [LexicalRun.complete, scope.2]
    rfl
  | cons level outer =>
    rw [levels] at scope
    obtain ⟨frame, known, -, complete, around, -, found⟩ := scope
    have flagged := declared.1 level (by rw [levels]; rfl)
    obtain ⟨c, cell⟩ := complete name.lexeme flagged
    refine .change (a := ()) (b := ()) (by rw [← related.moments]; rfl) ?_ (.refl _) related.sound
      (related.real.setCell related.sound known cell ordinary fits) { related.alike with }
      ⟨rfl, rfl, rfl, rfl, fun _ present => present⟩ fun _ _ _ _ => trivial
    rw [LexicalRun.complete, found, if_pos flagged, cell]
    rfl

end Declared

/-- A declared name stays declared. -/
theorem Joint.Declared.later {j j' : Joint V D} {o : Option EnvironmentId} {p : Place}
    {name : String} (declared : j.Declared p name) (before : j.Before o j') : j'.Declared p name :=
  ⟨declared.1, fun outside => before.globals name (declared.2 outside)⟩

/-! ## Functions -/

/-- The name may as well be defined before the function is made. -/
theorem Run.declareFunction_eq (declaration : Function) :
    Run.declareFunction declaration = (do
      Run.define declaration.name.lexeme .nil
      let e ← Run.current
      let f ← Run.change (·.newFunction ⟨declaration, e, false⟩)
      Run.defineIn e declaration.name.lexeme (.function f) : Run Unit) := by
  funext m
  have twice := m.heap.define_define m.current declaration.name.lexeme .nil
    (.function ⟨m.heap.functions.size⟩)
  change EStateM.Result.ok () { m with heap := _ } = EStateM.Result.ok () { m with heap := _ }
  congr 2
  rw [Heap.mk.injEq]
  refine ⟨?_, rfl, rfl, rfl, rfl⟩
  exact (congrArg Heap.environments twice).symm

/-- The innermost scope around a regular place belongs to a block or a function. -/
theorem Place.IsRegular.head_origin {p : Place} (regular : p.IsRegular) :
    ∀ level ∈ p.levels.head?, ∀ text, level.origin ≠ .this text := by
  obtain ⟨levels, inFunction, inClass⟩ := p
  unfold Place.IsRegular at regular
  dsimp only at regular ⊢
  cases regular with
  | topLevel => rintro _ ⟨⟩
  | block | function | method | subclassMethod =>
    rintro _ ⟨⟩ text equal
    cases equal

theorem Joint.declareFunction_lockstep (ruled : Ruled V D) {j : Joint V D} {p : Place}
    {names : Names} (stands : j.Stands p names) (settled : p.Settled) {declaration : Function}
    (visited : ∀ v ∈ (Stmt.function declaration).visits p, V v) (placed : declaration.WellPlaced) :
    j.Lockstep (some j.current) (NotedRun.lift (Run.declareFunction declaration))
      (LexicalRun.declareFunction names declaration) fun j' _ names' =>
        j'.Stands (p.declareComplete declaration.name) names' := by
  rw [Stmt.visits] at visited
  obtain ⟨visitedHere, visitedBody⟩ := List.forall_mem_cons.1 visited
  have accepts := ruled.accepts visitedHere
  have regular := accepts.regular.declareComplete accepts.ordinary
  rw [Run.declareFunction_eq]
  simp only [NotedRun.lift_bind]
  refine (j.declare_lockstep accepts (stands.declare accepts)
    (show j.world.Fits .nil from trivial)).bind fun _ names' j₁ _ reached => ?_
  obtain ⟨stands₁, declared₁⟩ := reached
  refine .current ?_
  -- The name is in scope before the function is made, so that the body may call it.
  let code : Code := ⟨⟨declaration, j₁.current, false⟩, names',
    (p.declareComplete declaration.name).withFunction .function, false⟩
  have new : ∀ f, code.Sound V j₁.world f := fun f =>
    ⟨visitedBody, placed, settled.declareComplete declaration.name, stands₁.scope, stands₁.global,
      fun made => (by simp [code] at made), fun _ level head text origin =>
        absurd origin (regular.head_origin level head text)⟩
  refine (j₁.newFunction_lockstep code new).andThen fun _ f j₂ before₂ reached => ?_
  obtain ⟨rfl, known⟩ := reached
  have fits : j₂.world.Fits (.function f) := ⟨code, known, rfl⟩
  rw [← before₂.current]
  refine ((j₂.complete_lockstep (before₂.stands stands₁) (declared₁.later before₂) accepts.ordinary
    fits).returning fun _ _ j₃ before₃ _ => ?_).weaken
  exact before₃.stands (before₂.stands stands₁)

end Lox
