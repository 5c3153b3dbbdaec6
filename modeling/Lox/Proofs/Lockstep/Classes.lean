import Lox.Proofs.Lockstep.Declarations

/-!
# Classes in step

A class declaration makes its methods around an environment for `super`, if there is a superclass, and
then the class. The account of the run notes with which superclass and around which environment.
-/

namespace Lox

open Lexical (CellId Names Store LexicalRun)

variable {V : Visit → Prop} {D : Distances}

/-- The superclass of a class that is declared, if its text names one. -/
structure World.HasParent (W : World) (text : ClassText) (parent : Option ClassId) : Prop where
  isSome : parent.isSome = text.superclass.isSome
  known : ∀ k, parent = some k → ∃ fact, W.classes k = some fact

theorem World.HasParent.mono {W W' : World} {o : Option EnvironmentId} (later : W.Extends o W')
    {text : ClassText} {parent : Option ClassId} (has : W.HasParent text parent) :
    W'.HasParent text parent := by
  refine ⟨has.isSome, fun k above => ?_⟩
  obtain ⟨fact, known⟩ := has.known k above
  exact ⟨fact, later.classes k fact known⟩

/-! ## The superclass -/

theorem Joint.superclassOf_lockstep (ruled : Ruled V D) {j : Joint V D} {p : Place} {names : Names}
    (stands : j.Stands p names) {className : Token} {mention : Occurrence}
    (visited : V ⟨.superclass className mention, p.declareComplete className⟩) :
    j.Lockstep none (NotedRun.superclassOf Moment.scribe mention)
      (LexicalRun.superclassOf names mention)
      fun j' a b => b = a ∧ ∃ fact, j'.world.classes a = some fact := by
  have at' : Visit.At mention p .variable _ := .superclass className
  refine .observe ruled stands at' visited fun j₁ _ stands₁ _ => ?_
  rw [Run.superclassOf, NotedRun.lift_bind]
  refine (j₁.lookUp_lockstep stands₁ (at'.distance ruled visited)
    (at'.read ruled visited rfl)).bind fun _ value j₂ _ reached => ?_
  obtain ⟨rfl, fits⟩ := reached
  cases value with
  | «class» c => exact .pure ⟨rfl, fits⟩
  | _ => exact .fail

theorem Joint.parent_lockstep (ruled : Ruled V D) {j : Joint V D} {p : Place} {names : Names}
    (stands : j.Stands p names) (text : ClassText) (visited : ∀ v ∈ p.superclassVisits text, V v) :
    j.Lockstep none (text.superclass.mapM (NotedRun.superclassOf Moment.scribe))
      (text.superclass.mapM (LexicalRun.superclassOf names)) fun j' a b =>
        b = a ∧ j'.world.HasParent text a := by
  obtain ⟨name, superclass, methods⟩ := text
  cases superclass with
  | none => exact .pure ⟨rfl, rfl, by rintro _ ⟨⟩⟩
  | some mention =>
    have visitedHere := visited _ (List.mem_singleton_self _)
    refine (j.superclassOf_lockstep ruled stands visitedHere).map fun _ c j' _ reached => ?_
    obtain ⟨rfl, known⟩ := reached
    exact ⟨rfl, rfl, fun k here => Option.some.inj here ▸ known⟩

/-! ## The methods -/

/-- The environment and the names that the methods of a class close over. -/
structure World.Around (W : World) (p : Place) (text : ClassText) (parent : Option ClassId)
    (inner : EnvironmentId) (names : Names) : Prop where
  scope : W.Scoped inner (p.methodLevels text) names.find?
  global : names = .global ↔ p.methodLevels text = []
  super : ∀ k, parent = some k →
    ∃ frame, W.frames inner = some frame ∧ frame.kind = .super text k

theorem World.Around.mono {W W' : World} {o : Option EnvironmentId} (later : W.Extends o W')
    {p : Place} {text : ClassText} {parent : Option ClassId} {inner : EnvironmentId} {names : Names}
    (around : W.Around p text parent inner names) : W'.Around p text parent inner names := by
  refine ⟨around.scope.mono later, around.global, fun k above => ?_⟩
  obtain ⟨frame, known, kind⟩ := around.super k above
  obtain ⟨frame', known', grows, -⟩ := later.frames inner frame known
  exact ⟨frame', known', grows.kind.trans kind⟩

theorem Joint.methodEnvironment_lockstep {j : Joint V D} {p : Place} {text : ClassText}
    {names : Names} (stands : j.Stands (p.declareComplete text.name.token) names)
    {parent : Option ClassId} (has : j.world.HasParent text parent) :
    j.Lockstep none (NotedRun.methodEnvironment j.current parent)
      (LexicalRun.methodNames names parent) fun j' inner names' =>
        j'.world.Around p text parent inner names' := by
  obtain ⟨name, superclass, methods⟩ := text
  cases parent with
  | none =>
    cases superclass with
    | none => exact .pure ⟨stands.scope, stands.global, by rintro _ ⟨⟩⟩
    | some _ => cases has.isSome
  | some c =>
    cases superclass with
    | none => cases has.isSome
    | some mention =>
      have related := j.related
      let text : ClassText := ⟨name, some mention, methods⟩
      let env : Environment := ⟨Table.empty.insert "super" (.class c), some j.current⟩
      let e : EnvironmentId := (j.heap.newEnvironment env).1
      let cell : CellId := ⟨j.store.cells.size⟩
      let frame : Frame := ⟨.super text c, j.current, single "super" cell⟩
      have unknown : j.world.frames e = none := related.real.unknown_environment env
      have later := World.Extends.addFrame unknown frame
      have fits : j.world.Fits (.class c) := has.known c rfl
      -- The one name of the new frame lies in a cell that no other frame has.
      have real : (j.world.addFrame e frame).Real (j.heap.newEnvironment env).2
          { j.store with cells := j.store.cells.push (.class c) } :=
        related.real.addImplicit fits (by rintro _ _ _ _ _ ⟨⟩)
          (by rintro _ _ ⟨⟩; exact ⟨rfl, rfl⟩)
      have sound : (j.world.addFrame e frame).Sound V := by
        refine related.sound.extend later ?_ (related.sound.separate_addFrame (fun x c' at' => ?_)
          fun x x' c' at' at'' => ?_) (fun e' frame' known' => ?_) (fun _ _ known => .inl known)
          (fun _ _ known => .inl known) (fun _ _ known => .inl known) related.sound.chronicled
        · exact (Function.update_of_ne (related.real.globals_ne_new env) ..).trans
            related.sound.globals
        · obtain ⟨-, rfl⟩ := single_eq_some at'
          exact related.real.unused
        · exact (single_eq_some at').1.trans (single_eq_some at'').1.symm
        · rcases update_eq_some known' with ⟨rfl, rfl⟩ | ⟨-, known'⟩
          · refine .inr ⟨trivial, fun x c' at' => ?_⟩
            obtain ⟨rfl, -⟩ := single_eq_some at'
            exact List.mem_singleton.2 rfl
          · exact .inl known'
      refine .change (a := e) (b := names.extend "super" cell)
        (by rw [World.addFrame, ← related.moments]; rfl) rfl later sound real { related.alike with }
        ⟨rfl, rfl, rfl, rfl, fun _ present => present⟩ fun j' world _ _ => ?_
      rw [world]
      have known : (j.world.addFrame e frame).frames e = some frame := Function.update_self ..
      refine ⟨World.Scoped.implicit known rfl (stands.scope.mono later), ?_, fun k here => ?_⟩
      · simp [Place.methodLevels]
      · obtain rfl := Option.some.inj here
        exact ⟨frame, known, rfl⟩

/-- The visits of each method are among those of all methods. -/
theorem Function.visits_sub_methodVisits (p : Place) {f : Function} {fs : List Function}
    (member : f ∈ fs) : ∀ v ∈ f.visits (p.withFunction f.methodContext),
      v ∈ Function.methodVisits p fs := by
  intro v visited
  induction fs with
  | nil => cases member
  | cons first rest inductionHypothesis =>
    rw [Function.methodVisits, List.mem_append]
    rcases List.mem_cons.1 member with rfl | member
    · exact .inl visited
    · exact .inr (inductionHypothesis member)

theorem Function.wellPlaced_of_mem {f : Function} {fs : List Function} (member : f ∈ fs)
    (placed : Function.AllWellPlaced fs) : f.WellPlaced :=
  (Function.allWellPlaced_iff fs).1 placed f member

/-- What is known of the functions in the table of a class. -/
def World.Methods (W : World) (text : ClassText) (inner : EnvironmentId)
    (methods : Table FunctionId) : Prop :=
  ∀ name f, methods.find? name = some f → ∃ code rest,
    W.functions f = some code ∧ code.unbound = true ∧ code.closure.environment = inner ∧
      code.closure.declaration ∈ text.methods ∧
      code.place.levels = ⟨Resolver.implicitScope "this", .this text⟩ :: rest

theorem World.Methods.mono {W W' : World} {o : Option EnvironmentId} (later : W.Extends o W')
    {text : ClassText} {inner : EnvironmentId} {methods : Table FunctionId}
    (known : W.Methods text inner methods) : W'.Methods text inner methods := by
  intro name f found
  obtain ⟨code, rest, there, facts⟩ := known name f found
  exact ⟨code, rest, later.functions f code there, facts⟩

theorem Joint.methodTable_lockstep {j : Joint V D} {p : Place} (settled : p.Settled)
    {text : ClassText} {parent : Option ClassId} {inner : EnvironmentId} {names : Names}
    (around : j.world.Around p text parent inner names)
    (visited : ∀ v ∈ Function.methodVisits (p.enterClass text) text.methods, V v)
    (placed : Function.AllWellPlaced text.methods) :
    j.Lockstep none (NotedRun.lift (Run.methodTable inner text.methods))
      (LexicalRun.methodTable names text.methods) fun j' a b =>
        b = a ∧ j'.world.Methods text inner a := by
  -- The table so far is right; then so it is after the methods that are left.
  suffices general : ∀ (methods : List Function) (table : Table FunctionId) (j : Joint V D),
      (∀ f ∈ methods, f ∈ text.methods) → j.world.Around p text parent inner names →
      j.world.Methods text inner table →
      j.Lockstep none
        (NotedRun.lift (methods.foldlM (fun table method => do
          let f ← Run.change (·.newFunction ⟨method, inner, method.isInitializer⟩)
          return table.insert method.name.lexeme f) table))
        (methods.foldlM (fun table method => do
          let f ← LexicalRun.newFunction ⟨method, names, method.isInitializer⟩
          return table.insert method.name.lexeme f) table) fun j' a b =>
          b = a ∧ j'.world.Methods text inner a from
    general text.methods .empty j (fun _ member => member) around
      (by rintro _ _ ⟨⟩)
  intro methods
  induction methods with
  | nil => exact fun table j _ _ known => .pure ⟨rfl, known⟩
  | cons method rest inductionHypothesis =>
    intro table j members around known
    obtain ⟨member, others⟩ := List.forall_mem_cons.1 members
    have levels := p.enterClass_levels text
    let code : Code := ⟨⟨method, inner, method.isInitializer⟩, names,
      (p.enterClass text).withFunction method.methodContext, true⟩
    have outside : code.levels = p.methodLevels text := by
      rw [Code.levels, if_pos rfl]
      exact congrArg List.tail levels
    have new : ∀ f, code.Sound V j.world f := fun f =>
      ⟨fun v here => visited v (Function.visits_sub_methodVisits _ member v here),
        Function.wellPlaced_of_mem member placed, settled.enterClass text,
        outside ▸ around.scope, outside ▸ around.global, fun _ => ⟨text, _, levels⟩,
        by rintro ⟨⟩⟩
    simp only [List.foldlM_cons, NotedRun.lift_bind, bind_assoc]
    refine (j.newFunction_lockstep code new).bind fun _ f j' before reached => ?_
    obtain ⟨rfl, here⟩ := reached
    refine .of_eq (inductionHypothesis (table.insert method.name.lexeme f) j' others
      (around.mono before.world) fun name f' found => ?_) rfl rfl
    rw [Table.find?_insert] at found
    split at found
    · obtain rfl := Option.some.inj found
      exact ⟨code, _, here, rfl, rfl, member, levels⟩
    · exact known.mono before.world name f' found

/-! ## The class -/

theorem Joint.newClass_lockstep {j : Joint V D} {p : Place} {text : ClassText}
    {parent : Option ClassId} {inner : EnvironmentId} {names : Names} {methods : Table FunctionId}
    (has : j.world.HasParent text parent) (around : j.world.Around p text parent inner names)
    (known : j.world.Methods text inner methods) :
    j.Lockstep none
      (do
        let made ← NotedRun.lift (Run.change (·.newClass ⟨text.name.name, parent, methods⟩))
        NotedRun.note Moment.scribe (.declared text parent inner made)
        return made)
      (LexicalRun.newClass ⟨text.name.name, parent, methods⟩) fun j' a b =>
        b = a ∧ ∃ fact, j'.world.classes a = some fact := by
  have related := j.related
  let made : Class := ⟨text.name.name, parent, methods⟩
  let c : ClassId := (j.heap.newClass made).1
  let fact : ClassFact := ⟨text, parent, inner, methods⟩
  have unknown : j.world.classes c = none := related.real.unknown_class made
  let W := (j.world.addClass c fact).addMoment (.declared text parent inner c)
  have later : j.world.Extends none W := (World.Extends.addClass unknown fact).trans (.addMoment _)
  have here : W.classes c = some fact := Function.update_self ..
  have sound : W.Sound V := by
    refine related.sound.extend later related.sound.globals related.sound.separate
      (fun _ _ known => .inl known) (fun _ _ known => .inl known) (fun c' fact' known' => ?_)
      (fun _ _ known => .inl known) ⟨trivial, related.sound.chronicled⟩
    rcases update_eq_some known' with ⟨rfl, rfl⟩ | ⟨-, known'⟩
    · exact .inr ⟨List.mem_cons_self, has.isSome, fun k above =>
        ⟨(has.mono later).known k above, (around.mono later).super k above⟩, known.mono later⟩
    · exact .inl known'
  -- Both sides keep the same classes, so the new one has the same handle.
  have count : j.store.classes.size = j.heap.classes.size := by rw [related.alike.classes]; rfl
  refine .change (a := c) (b := c) ?_ ?_ later sound
    ((related.real.addClass fact rfl).addMoment _)
    { related.alike with classes := by rw [related.alike.classes]; rfl }
    ⟨rfl, rfl, rfl, rfl, fun _ present => present⟩ fun j' world _ _ => ⟨rfl, fact, ?_⟩
  · change EStateM.Result.ok c (⟨_, .declared text parent inner c :: j.traced.notes⟩ : Traced) = _
    rw [related.moments]
    rfl
  · rw [LexicalRun.newClass, count]
    rfl
  · rw [world]
    exact here

theorem Joint.declareClass_lockstep (ruled : Ruled V D) {j : Joint V D} {p : Place} {names : Names}
    (stands : j.Stands p names) (settled : p.Settled) (text : ClassText)
    (visited : ∀ v ∈ (Stmt.class text.name text.superclass text.methods).visits p, V v)
    (placed : Function.AllWellPlaced text.methods) :
    j.Lockstep (some j.current) (NotedRun.declareClass Moment.scribe text)
      (LexicalRun.declareClass names text)
      fun j' _ names' => j'.Stands (p.declareComplete text.name.token) names' := by
  rw [Stmt.visits] at visited
  obtain ⟨visitedHead, visitedMethods⟩ := List.forall_mem_append.1 visited
  obtain ⟨visitedHere, visitedSuperclass⟩ := List.forall_mem_cons.1 visitedHead
  have accepts := ruled.accepts visitedHere
  refine (j.parent_lockstep ruled stands text visitedSuperclass).andThen
    fun _ parent j₁ before₁ reached => ?_
  obtain ⟨rfl, has⟩ := reached
  rw [← before₁.current]
  refine (j₁.declare_lockstep accepts ((before₁.stands stands).declare accepts)
    (show j₁.world.Fits .nil from trivial)).bind fun _ names' j₂ before₂ reached => ?_
  obtain ⟨stands₂, declared₂⟩ := reached
  refine .current ?_
  refine (j₂.methodEnvironment_lockstep stands₂ (has.mono before₂.world)).andThen
    fun inner names₃ j₃ before₃ around => ?_
  refine (j₃.methodTable_lockstep settled around visitedMethods placed).andThen
    fun _ methods j₄ before₄ reached => ?_
  obtain ⟨rfl, known⟩ := reached
  have hasParent := ((has.mono before₂.world).mono before₃.world).mono before₄.world
  have later : j₂.Before none j₄ := before₃.trans before₄
  -- What is left once the class is made: its name, which holds `nil` so far, gets the class.
  have finish : ∀ c' c (j₅ : Joint V D), j₄.Before none j₅ →
      (c = c' ∧ ∃ fact, j₅.world.classes c' = some fact) →
      j₅.Lockstep (some j₁.current)
        (do
          let holder ← Run.ofRuntime (← NotedRun.lift (Run.ask (·.holder j₂.current text.name)))
          NotedRun.lift (Run.defineIn holder text.name.name (.class c')))
        (do
          LexicalRun.complete names' text.name.name (.class c)
          return names')
        fun j' _ names => j'.Stands (p.declareComplete text.name.token) names := by
    rintro _ c j₅ before₅ ⟨rfl, known⟩
    have fits : j₅.world.Fits (.class c) := known
    have before : j₂.Before none j₅ := later.trans before₅
    have stands₅ := before.stands stands₂
    have declared₅ := declared₂.later before
    obtain ⟨present, inBounds⟩ := j₅.declared_present stands₅ declared₅
    rw [← before.current]
    refine .ask ?_
    rw [Heap.holder_here inBounds present]
    exact ((j₅.complete_lockstep stands₅ declared₅ accepts.ordinary fits).returning
      fun _ _ j₆ before₆ _ => before₆.stands stands₅).weaken
  exact ((j₄.newClass_lockstep hasParent (around.mono before₄.world) known).andThen finish).of_eq
    rfl rfl

end Lox
