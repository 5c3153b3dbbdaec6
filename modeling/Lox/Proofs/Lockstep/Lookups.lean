import Lox.Proofs.Evaluation.Access
import Lox.Proofs.Lockstep.Names

/-!
# Lookups in step

Where an occurrence is looked up, the chain of environments corresponds to the levels of its visit. So
the recorded distance leads to the environment that holds the name, and the name lies there in the
cell to which the lexical map sends it.
-/

namespace Lox

open Lexical (CellId Names Store LexicalRun)

variable {V : Visit → Prop} {D : Distances}

/-! ## Distances -/

theorem Place.distance?_eq_none {p : Place} {name : String} (global : p.distance? name = none) :
    ∀ level ∈ p.levels, level.scope.contains name = false := by
  rw [Place.distance?, Place.scopes, List.findIdx?_eq_none_iff] at global
  exact fun level member => global _ (List.mem_map_of_mem member)

theorem Place.distance?_eq_some {p : Place} {name : String} {d : Nat}
    (found : p.distance? name = some d) : ∃ before level after,
      p.levels = before ++ level :: after ∧ before.length = d ∧
        level.scope.contains name = true ∧ ∀ l ∈ before, l.scope.contains name = false := by
  obtain ⟨levels, context⟩ := p
  rw [Place.distance?, Place.scopes] at found
  dsimp only at found ⊢
  induction levels generalizing d with
  | nil => cases found
  | cons level outer inductionHypothesis =>
    rw [List.map_cons, List.findIdx?_cons] at found
    cases here : level.scope.contains name with
    | true =>
      rw [here] at found
      obtain rfl := Option.some.inj found
      exact ⟨[], level, outer, rfl, rfl, here, by simp⟩
    | false =>
      simp only [here, Bool.false_eq_true, if_false] at found
      obtain ⟨d', found', rfl⟩ := Option.map_eq_some_iff.1 found
      obtain ⟨before, level', after, split, length, present, absent⟩ := inductionHypothesis found'
      exact ⟨level :: before, level', after, by rw [split]; rfl, by rw [List.length_cons, length],
        present, List.forall_mem_cons.2 ⟨here, absent⟩⟩

/-- A variable in its own initializer lies in the innermost scope. -/
theorem Place.distance?_of_inOwnInitializer {p : Place} {name : String}
    (own : p.inOwnInitializer name = true) : p.distance? name = some 0 ∧
      ∃ level, p.levels.head? = some level ∧ level.scope.find? name = some false := by
  obtain ⟨levels, context⟩ := p
  cases levels with
  | nil => cases own
  | cons level outer =>
    have incomplete : level.scope.find? name = some false := by
      simpa [Place.inOwnInitializer] using own
    refine ⟨?_, level, rfl, incomplete⟩
    simp [Place.distance?, Place.scopes, List.findIdx?_cons, Table.contains, incomplete]

/-- A name with a distance is complete there, if it is not in its own initializer. -/
theorem Place.complete_of_distance {p : Place} {name : String}
    (tail : ∀ level ∈ p.levels.tail, level.scope.Settled) (read : p.inOwnInitializer name = false)
    {before after : List Level} {level : Level} (split : p.levels = before ++ level :: after)
    (present : level.scope.contains name = true) : level.scope.find? name = some true := by
  cases before with
  | nil =>
    obtain ⟨flag, found⟩ := Option.isSome_iff_exists.1 present
    rw [Place.inOwnInitializer, split] at read
    cases flag with
    | true => exact found
    | false => simp [found] at read
  | cons first rest =>
    refine tail level ?_ name present
    rw [split]
    exact List.mem_append_right rest List.mem_cons_self

/-! ## Chains of environments -/

theorem Heap.ancestor?_succ {h : Heap} {e a b : EnvironmentId} {n : Nat}
    (found : h.ancestor? e n = some a) (enclosing : (h.environmentAt a).enclosing = some b) :
    h.ancestor? e (n + 1) = some b := by
  induction n generalizing e with
  | zero =>
    obtain rfl := Option.some.inj found
    rw [ancestor?, enclosing]
    rfl
  | succ n inductionHypothesis =>
    rw [ancestor?] at found ⊢
    cases outer : (h.environmentAt e).enclosing with
    | none =>
      rw [outer] at found
      cases found
    | some next =>
      rw [outer] at found
      exact inductionHypothesis found

section Chains

variable {W : World} {h : Heap} {s : Store} (real : W.Real h s)
include real

/-- The levels further out stand around an ancestor of the environment. -/
theorem World.Scoped.drop {before after : List Level} {e : EnvironmentId}
    {find : String → Option CellId} (scope : W.Scoped e (before ++ after) find) :
    ∃ a find', h.ancestor? e before.length = some a ∧ W.Scoped a after find' ∧
      ∀ x, (∀ level ∈ before, level.scope.find? x ≠ some true) → find x = find' x := by
  induction before generalizing e find with
  | nil => exact ⟨e, find, rfl, scope, fun _ _ => rfl⟩
  | cons level outer inductionHypothesis =>
    obtain ⟨frame, known, -, -, around, outside, found⟩ := scope
    obtain ⟨a, find', ancestor, there, same⟩ := inductionHypothesis outside
    refine ⟨a, find', ?_, there, fun x absent => ?_⟩
    · rw [List.length_cons, Heap.ancestor?, (real.frames e frame known).enclosing]
      exact ancestor
    · obtain ⟨absentHere, absentOuter⟩ := List.forall_mem_cons.1 absent
      rw [found x, if_neg absentHere]
      exact same x absentOuter

/-- A name that is not in its own initializer lies at its distance, in the cell of the map. -/
theorem World.Stands.resolve {e : EnvironmentId} {p : Place} {names : Names}
    (stands : W.Stands e p names) {name : String} (read : p.inOwnInitializer name = false) {d : Nat}
    (distance : p.distance? name = some d) : ∃ a frame c, h.ancestor? e d = some a ∧
      W.frames a = some frame ∧ frame.cells name = some c ∧ names.find? name = some c := by
  obtain ⟨before, level, after, split, rfl, present, absent⟩ := Place.distance?_eq_some distance
  have complete := Place.complete_of_distance stands.tail read split present
  have scope := stands.scope
  rw [split] at scope
  obtain ⟨a, find', ancestor, ⟨frame, known, -, holds, around, -, found⟩, same⟩ := scope.drop real
  obtain ⟨c, cell⟩ := holds name complete
  refine ⟨a, frame, c, ancestor, known, cell, ?_⟩
  rw [same name, found name, if_pos complete, cell]
  intro l member flagged
  have absentHere := absent l member
  rw [Table.contains, flagged] at absentHere
  cases absentHere

omit real

/-- A name without a distance is not in the map. -/
theorem World.Stands.unresolved {e : EnvironmentId} {p : Place} {names : Names}
    (stands : W.Stands e p names) {name : String} (global : p.distance? name = none) :
    names.find? name = none := by
  have absent := Place.distance?_eq_none global
  obtain ⟨levels, context⟩ := p
  have scope := stands.scope
  clear stands global
  dsimp only at absent scope
  generalize names.find? = find at scope ⊢
  induction levels generalizing e find with
  | nil => exact scope.2 name
  | cons level outer inductionHypothesis =>
    obtain ⟨absentHere, absentOuter⟩ := List.forall_mem_cons.1 absent
    obtain ⟨frame, -, -, -, around, outside, found⟩ := scope
    rw [found name, if_neg, inductionHypothesis absentOuter around outside]
    -- The map has only what a scope has as complete, and no scope has the name at all.
    intro flagged
    rw [Table.contains, flagged] at absentHere
    cases absentHere

include real

theorem World.Scoped.corresponds (sound : W.Sound V) {e : EnvironmentId} {levels : List Level}
    {find : String → Option CellId} (scope : W.Scoped e levels find) (pending : Option String) :
    h.Corresponds W.globals pending e levels := by
  induction levels generalizing e find pending with
  | nil =>
    obtain rfl := scope.1
    exact ⟨rfl, by rw [real.globalNames]⟩
  | cons level outer inductionHypothesis =>
    obtain ⟨frame, known, origin, complete, around, outside, -⟩ := scope
    have here := real.frames e frame known
    refine ⟨fun x flagged => .inr ?_, fun x present => ?_, frame.outer, here.enclosing,
      inductionHypothesis outside none⟩
    · obtain ⟨c, cell⟩ := complete x flagged
      rw [Table.contains, here.holds, cell]
      rfl
    · rw [Table.contains, here.holds, Option.isSome_map] at present
      obtain ⟨c, cell⟩ := Option.isSome_iff_exists.1 present
      rw [← origin]
      exact (sound.frames e frame known).declared x c cell

theorem World.Real.inherits {c declarer : ClassId} (inherits : W.Inherits c declarer) :
    h.Inherits c declarer := by
  induction inherits with
  | refl c => exact .refl c
  | step known parent _ inductionHypothesis =>
    refine .step ?_ inductionHypothesis
    rw [(real.classes _ _ known).2]
    exact parent

omit real

/-- A function that closes over an environment of `this` is the one for which that was made. -/
theorem World.Sound.made_of_called (sound : W.Sound V) {f : FunctionId} {code : Code}
    (known : W.functions f = some code) (callable : code.unbound = false) {frame : Frame}
    (here : W.frames code.closure.environment = some frame) {text : ClassText} {object : InstanceId}
    {method made : FunctionId} {declarer : ClassId}
    (kind : frame.kind = .this text object method made declarer) : made = f := by
  have codeSound := sound.functions f code known
  have scope := codeSound.scope
  rw [Code.levels, callable] at scope
  cases levels : code.place.levels with
  | nil =>
    -- At top level the function closes over the globals, which are not the environment of a frame.
    rw [levels] at scope
    have global : code.closure.environment = W.globals := scope.1
    rw [global, sound.globals] at here
    cases here
  | cons level rest =>
    rw [levels] at scope
    obtain ⟨frame', known', origin, -⟩ := scope
    obtain rfl := Option.some.inj (known'.symm.trans here)
    rw [kind] at origin
    obtain ⟨frame'', object', method', declarer', known'', kind'⟩ :=
      codeSound.anchor callable level (by rw [levels]; rfl) _ origin.symm
    obtain rfl := Option.some.inj (known''.symm.trans here)
    rw [kind] at kind'
    cases kind'
    rfl

include real

/-- What the account of the run tells of the innermost method. -/
theorem World.Scoped.anchor (sound : W.Sound V) {m : Machine} (heap : m.heap = h)
    {levels : List Level} {find : String → Option CellId} (scope : W.Scoped m.current levels find)
    {inner outer : List Level} {method : Function} {text : ClassText}
    (around : MethodAround levels inner outer method text) :
    ∃ a : Anchor, a.Holds W.moments m levels := by
  obtain ⟨⟨scope₀, plain, split⟩, -⟩ := id around
  rw [split] at scope
  obtain ⟨e₀, find₀, ancestor₀, ⟨frame₀, known₀, origin₀, -, find₁, outside₀, -⟩, -⟩ :=
    scope.drop real
  obtain ⟨frame₁, known₁, origin₁, -, find₂, outside₁, -⟩ := outside₀
  have real₀ := real.frames e₀ frame₀ known₀
  have real₁ := real.frames _ frame₁ known₁
  have sound₀ := (sound.frames e₀ frame₀ known₀).kind
  have sound₁ := (sound.frames _ frame₁ known₁).kind
  obtain ⟨f, kind₀⟩ := FrameKind.eq_call origin₀
  obtain ⟨object, unbound, made, declarer, kind₁⟩ := FrameKind.eq_this origin₁
  rw [kind₀] at sound₀
  rw [kind₁] at sound₁
  obtain ⟨called, code, knownCode, callable, declaration, environment⟩ := sound₀
  obtain ⟨bound, ⟨c, ofClass, inherits⟩, ⟨fact, name, knownFact, rfl, found⟩, unboundCode, madeCode,
    knownUnbound, outside, knownMade, closure⟩ := sound₁
  -- The account tells of a call and of a binding. It is the same function that they are about.
  obtain rfl := sound.made_of_called knownCode callable (environment ▸ known₁) kind₁
  obtain rfl := Option.some.inj (knownCode.symm.trans knownMade)
  have factSound := sound.classes declarer fact knownFact
  obtain ⟨unboundCode', rest, knownUnbound', -, inside, -⟩ := factSound.methods name unbound found
  obtain rfl := Option.some.inj (knownUnbound.symm.trans knownUnbound')
  -- The frame, the environment of `this` and the one around it follow each other outwards.
  have ancestor₁ := Heap.ancestor?_succ ancestor₀ real₀.enclosing
  have ancestor₂ := Heap.ancestor?_succ ancestor₁ real₁.enclosing
  have madeAt := (real.functions made code knownMade).2.1
  have unboundAt := (real.functions unbound unboundCode knownUnbound).2.1
  subst heap
  refine ⟨⟨inner, outer, method, fact.text, e₀, made, frame₀.outer, object, unbound, frame₁.outer,
    fact.parent, declarer⟩, ?_⟩
  exact {
    method := around
    frame := ancestor₀
    called := called
    calledText := by rw [madeAt, declaration]
    calledWithin := by rw [madeAt, environment]
    within := ancestor₁
    this := real₁.this _ _ _ _ _ kind₁
    bound := bound
    unboundText := by
      rw [unboundAt, ← declaration, closure]
    unboundAround := by rw [unboundAt, outside]
    around := ancestor₂
    declared := by
      rw [← outside, inside]
      exact factSound.declared
    inherits := by
      rw [(real.instances object c ofClass).2]
      exact real.inherits inherits
    hasParent := factSound.hasParent
    parent := fun k parent => by
      obtain ⟨-, frame₂, known₂, kind₂⟩ := factSound.parent k parent
      rw [← inside, outside] at known₂
      refine ⟨(real.frames _ frame₂ known₂).super _ _ kind₂, ?_⟩
      rw [(real.classes declarer fact knownFact).2]
      exact parent }

end Chains

end Lox
