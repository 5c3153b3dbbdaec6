import Lox.Proofs.Lockstep.Environments

/-!
# Properties and methods in step

A method that is read from an instance, or from the superclass through `super`, is bound to an instance
whose class inherits from the class that declares the method.
-/

namespace Lox

open Lexical (CellId Names Store LexicalRun)

variable {V : Visit → Prop} {D : Distances} {α β : Type}

/-! ## Methods that may be bound -/

theorem Joint.binds_of_method {j : Joint V D} {i : InstanceId} {c k : ClassId} {fact : ClassFact}
    (ofClass : j.world.instances i = some c) (inherits : j.world.Inherits c k)
    (known : j.world.classes k = some fact) {name : String} {f : FunctionId}
    (found : j.heap.method? k name = some f) : j.world.Binds i f := by
  obtain ⟨declarer, fact', above, known', method⟩ :=
    World.Real.methodWithin j.related.sound j.related.real _ k fact known found
  exact ⟨c, declarer, fact', name, ofClass, inherits.trans above, known', method⟩

/-- The function that a method lookup finds is known. -/
theorem Joint.function_of_method {j : Joint V D} {c : ClassId} {fact : ClassFact}
    (known : j.world.classes c = some fact) {name : String} {f : FunctionId}
    (found : j.heap.method? c name = some f) : ∃ code, j.world.functions f = some code := by
  obtain ⟨declarer, fact', -, known', method⟩ :=
    World.Real.methodWithin j.related.sound j.related.real _ c fact known found
  obtain ⟨code, -, here, -⟩ := (j.related.sound.classes declarer fact' known').methods name f method
  exact ⟨code, here⟩

/-- A class that is known inherits on the heap from known classes only. -/
theorem World.Real.inherits_of_heap {W : World} {h : Heap} {s : Store} (sound : W.Sound V)
    (real : W.Real h s) {c declarer : ClassId} (inherits : h.Inherits c declarer) :
    (∃ fact, W.classes c = some fact) →
      W.Inherits c declarer ∧ ∃ fact, W.classes declarer = some fact := by
  induction inherits with
  | refl c => exact fun known => ⟨.refl c, known⟩
  | step above _ inductionHypothesis =>
    rintro ⟨fact, known⟩
    rw [(real.classes _ fact known).2] at above
    obtain ⟨parentKnown, -⟩ := (sound.classes _ fact known).parent _ above
    obtain ⟨rest, declarerKnown⟩ := inductionHypothesis parentKnown
    exact ⟨.step known above rest, declarerKnown⟩

/-! ## Properties -/

theorem Joint.property_lockstep {j : Joint V D} {object : Value} (fits : j.world.Fits object)
    (key : Occurrence) :
    j.Lockstep none (NotedRun.property Moment.scribe object key) (LexicalRun.property object key)
      fun j' a b => j'.Same a b := by
  have related := j.related
  cases object with
  | «instance» i =>
    obtain ⟨c, ofClass⟩ := fits
    obtain ⟨fact, known⟩ := related.sound.instances i c ofClass
    refine .ask (.asked ?_)
    rw [show j.store.objects.member i key = j.heap.member i key from related.alike.member i key]
    cases member : j.heap.member i key with
    | error e => exact .throw trivial
    | ok m =>
      rw [Heap.member] at member
      split at member
      · next value found =>
        obtain rfl := Except.ok.inj member
        exact .pure ⟨rfl, related.real.fieldsFit i _ value found⟩
      · split at member
        -- No field has the name: a method is bound to the instance, whose class the world knows.
        · next f found =>
          obtain rfl := Except.ok.inj member
          have ofClass' : (j.heap.instanceAt i).ofClass = c := (related.real.instances i c ofClass).2
          rw [ofClass'] at found
          refine (j.bindTo_lockstep (j.binds_of_method ofClass (.refl c) known found)).map
            fun _ made j' _ reached => ?_
          obtain ⟨rfl, code, knownCode, callable, _⟩ := reached
          exact ⟨rfl, code, knownCode, callable⟩
        · cases member
  | _ => exact .fail

theorem Joint.assignProperty_lockstep {j : Joint V D} {object : Value} (fits : j.world.Fits object)
    (key : Occurrence) {value : TracedRun Value} {value' : LexicalRun Value}
    (steps : j.Lockstep none value value' fun j' a b => j'.Same a b) :
    j.Lockstep none (NotedRun.assignProperty object key value)
      (LexicalRun.assignProperty object key value') fun j' a b => j'.Same a b := by
  cases object with
  | «instance» i =>
    obtain ⟨c, ofClass⟩ := fits
    refine steps.bind fun _ v j' before reached => ?_
    obtain ⟨rfl, fits⟩ := reached
    have ofClass' := before.world.instances i c ofClass
    refine (j'.setField_lockstep ofClass' fits).bind fun _ _ j'' before' _ => ?_
    exact .pure ⟨rfl, before'.world.fits fits⟩
  | _ => exact .fail

/-! ## Superclasses -/

/-- What `super` and `this` mean where a mention of `super` was accepted. -/
structure Joint.SuperHere (j : Joint V D) (names : Names) (d : Nat) (k : ClassId) (i : InstanceId) :
    Prop where
  super : j.heap.lookUpAt j.current d "super" = .ok (.class k)
  this : j.heap.lookUpAt j.current ((d : Int) - 1) "this" = .ok (.instance i)
  superCell : ∃ c, names.find? "super" = some c ∧ j.store.cellAt c = .class k
  thisCell : ∃ c, names.find? "this" = some c ∧ j.store.cellAt c = .instance i
  inherits : ∃ c, j.world.instances i = some c ∧ j.world.Inherits c k
  known : ∃ fact, j.world.classes k = some fact

/-- A name with a distance is the same value on both sides. -/
theorem Joint.find?_of_distance {j : Joint V D} {p : Place} {names : Names} (stands : j.Stands p names)
    {name : String} (read : p.inOwnInitializer name = false) {d : Nat}
    (distance : p.distance? name = some d) {a : EnvironmentId} {value : Value}
    (ancestor : j.heap.ancestor? j.current d = some a)
    (found : (j.heap.environmentAt a).names.find? name = some value) :
    ∃ c, names.find? name = some c ∧ j.store.cellAt c = value := by
  obtain ⟨a', frame, c, ancestor', known, cell, resolved⟩ :=
    World.Stands.resolve j.related.real stands read distance
  obtain rfl := Option.some.inj (ancestor.symm.trans ancestor')
  have holds : (j.heap.environmentAt a).names.find? name = (frame.cells name).map j.store.cellAt :=
    (j.related.real.frames a frame known).holds name
  rw [found, cell] at holds
  exact ⟨c, resolved, (Option.some.inj holds).symm⟩

theorem Joint.superHere (ruled : Ruled V D) {j : Joint V D} {p : Place} {names : Names}
    (stands : j.Stands p names) {keyword : Occurrence} (visited : V ⟨.mention .super keyword, p⟩) :
    ∃ d k i, p.distance? keyword.name = some d ∧ j.SuperHere names d k i := by
  have related := j.related
  have named : keyword.name = "super" := (ruled.lawful _ visited).spelled
  have regular := (ruled.lawful _ visited).regular
  have at' : Visit.At keyword p .super _ := .mention .super
  obtain ⟨inner, outer, method, text, around, super⟩ := at'.method ruled visited (.inr rfl)
  obtain ⟨hasSuperclass, rest, outside⟩ := super rfl
  -- The anchor of the innermost method tells in which environments the two names are.
  obtain ⟨a, holds⟩ := stands.scope.anchor related.real related.sound rfl around
  obtain ⟨sameInner, -, -, sameText⟩ := around.unique holds.method
  have superDistance : p.distance? "super" = _ := around.distance_super outside
  have thisDistance : p.distance? "this" = _ := around.distance_this
  obtain ⟨k, parent⟩ := Option.isSome_iff_exists.1 (holds.hasParent.trans (sameText ▸ hasSuperclass))
  obtain ⟨superValue, above⟩ := holds.parent k parent
  have superAncestor := holds.around
  have thisAncestor := holds.within
  rw [← sameInner] at superAncestor thisAncestor
  -- The cells that the names mean lexically have the values from these environments.
  have thisCell := j.find?_of_distance stands
    (regular.inOwnInitializer fun ordinary => ordinary.1 rfl) thisDistance thisAncestor holds.this
  have superCell := j.find?_of_distance stands
    (regular.inOwnInitializer fun ordinary => ordinary.2 rfl) superDistance superAncestor superValue
  have fits : j.world.Fits (.instance a.object) := by
    obtain ⟨c, -, here⟩ := thisCell
    exact here ▸ related.real.cellsFit c
  obtain ⟨c, ofClass⟩ := fits
  -- The class of the instance inherits from the one that declares the method, and so from its parent.
  have inherits := holds.inherits
  rw [(related.real.instances _ c ofClass).2] at inherits
  obtain ⟨inherits, known⟩ := related.real.inherits_of_heap related.sound (inherits.parent above)
    (related.sound.instances _ c ofClass)
  have inside : (((inner.length + 2 : Nat) : Int) - 1).toNat = inner.length + 1 := by omega
  exact ⟨_, k, a.object, named ▸ superDistance, Heap.lookUpAt_of_found superAncestor superValue,
    Heap.lookUpAt_of_found (inside ▸ thisAncestor) holds.this, superCell, thisCell,
    ⟨c, ofClass, inherits⟩, known⟩

theorem Joint.superMethod_lockstep (ruled : Ruled V D) {j : Joint V D} {p : Place} {names : Names}
    (stands : j.Stands p names) {keyword : Occurrence} (visited : V ⟨.mention .super keyword, p⟩)
    (method : Occurrence) :
    j.Lockstep none (NotedRun.superMethod Moment.scribe keyword method)
      (LexicalRun.superMethod names method) fun j' a b => j'.Same a b := by
  have related := j.related
  obtain ⟨d, k, i, distance, here⟩ := j.superHere ruled stands visited
  obtain ⟨superCell, superFound, superValue⟩ := here.superCell
  obtain ⟨thisCell, thisFound, thisValue⟩ := here.thisCell
  obtain ⟨c, ofClass, inherits⟩ := here.inherits
  obtain ⟨fact, known⟩ := here.known
  have recorded := ruled.distance _ .super keyword visited rfl
  refine .distance ?_
  rw [recorded]
  dsimp only
  rw [distance]
  -- The superclass and the receiver are there, so that neither of the internal faults occurs.
  refine .current (.ask (.ofInternal here.super (.ask (.ofInternal here.this ?_))))
  rw [LexicalRun.superMethod, superFound, thisFound]
  refine .asked (.asked ?_)
  rw [superValue, thisValue]
  refine .ask (.asked ?_)
  rw [related.alike.method?, show j.traced.machine.heap = j.heap from rfl]
  cases found : j.heap.method? k method.name with
  | none => exact .fail
  | some f =>
    refine (j.bindTo_lockstep (j.binds_of_method ofClass inherits known found)).map
      fun _ made j' _ reached => ?_
    obtain ⟨rfl, code, knownCode, callable, _⟩ := reached
    exact ⟨rfl, code, knownCode, callable⟩

end Lox
