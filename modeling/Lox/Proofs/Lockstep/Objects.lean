import Lox.Proofs.Lockstep.Variables

/-!
# Objects in step

New functions and instances get the same handles on both sides. Binding a method to an instance makes an
environment for `this`, a cell, and a function that may be called.
-/

namespace Lox

open Lexical (CellId Names Store LexicalRun)

variable {V : Visit → Prop} {D : Distances} {α β γ : Type}

/-! ## New environments -/

/-- The one name that an implicit scope holds, with its cell. -/
def single (name : String) (c : CellId) : String → Option CellId :=
  fun x => if name = x then some c else none

theorem single_eq_some {name x : String} {c c' : CellId} (found : single name c x = some c') :
    x = name ∧ c' = c := by
  unfold single at found
  split at found
  · next same => exact ⟨same.symm, (Option.some.inj found).symm⟩
  · cases found

theorem find?_implicitScope (name x : String) :
    (Resolver.implicitScope name).find? x = if name = x then some true else none := by
  rw [Resolver.implicitScope, Table.find?_insert]
  rfl

theorem settled_implicitScope (name : String) : (Resolver.implicitScope name).Settled := by
  intro x present
  rw [Table.contains, find?_implicitScope] at present
  rw [find?_implicitScope]
  split
  · rfl
  · next other =>
    rw [if_neg other] at present
    cases present

/-- Inside an implicit scope, which holds its name only. -/
theorem World.Scoped.implicit {W : World} {e : EnvironmentId} {frame : Frame}
    (known : W.frames e = some frame) {name : String} {c : CellId} (cells : frame.cells = single name c)
    {outer : List Level} {names : Names} (around : W.Scoped frame.outer outer names.find?) :
    W.Scoped e (⟨Resolver.implicitScope name, frame.kind.origin⟩ :: outer)
      (names.extend name c).find? := by
  refine ⟨frame, known, rfl, fun x flagged => ⟨c, ?_⟩, names.find?, around, fun x => ?_⟩
  · rw [find?_implicitScope] at flagged
    rw [cells, single]
    split at flagged
    · next same => exact if_pos same
    · cases flagged
  · rw [find?_implicitScope, Names.find?_extend, cells, single]
    by_cases same : name = x
    · simp [same]
    · simp [same]

/-- The cells of a new environment are its own. -/
theorem World.Sound.separate_addFrame {W : World} (sound : W.Sound V) {e : EnvironmentId}
    {frame : Frame}
    (unused : ∀ x c, frame.cells x = some c → ∀ e' frame' x', W.frames e' = some frame' →
      frame'.cells x' ≠ some c)
    (own : ∀ x x' c, frame.cells x = some c → frame.cells x' = some c → x = x') :
    ∀ e₁ e₂ frame₁ frame₂ x₁ x₂ c, (W.addFrame e frame).frames e₁ = some frame₁ →
      (W.addFrame e frame).frames e₂ = some frame₂ → frame₁.cells x₁ = some c →
      frame₂.cells x₂ = some c → e₁ = e₂ ∧ x₁ = x₂ := by
  intro e₁ e₂ frame₁ frame₂ x₁ x₂ c known₁ known₂ found₁ found₂
  rcases update_eq_some known₁ with ⟨here₁, new₁⟩ | ⟨-, old₁⟩
  · rcases update_eq_some known₂ with ⟨here₂, new₂⟩ | ⟨-, old₂⟩
    · subst new₁ new₂
      exact ⟨here₁.trans here₂.symm, own x₁ x₂ c found₁ found₂⟩
    · subst new₁
      exact absurd found₂ (unused x₁ c found₁ e₂ frame₂ x₂ old₂)
  · rcases update_eq_some known₂ with ⟨here₂, new₂⟩ | ⟨-, old₂⟩
    · subst new₂
      exact absurd found₁ (unused x₂ c found₂ e₁ frame₁ x₁ old₁)
    · exact sound.separate e₁ e₂ frame₁ frame₂ x₁ x₂ c old₁ old₂ found₁ found₂

theorem World.Real.globals_ne_new {W : World} {h : Heap} {s : Store} (real : W.Real h s)
    (env : Environment) : W.globals ≠ (h.newEnvironment env).1 := by
  intro same
  have inBounds := real.globals
  rw [same] at inBounds
  exact Nat.lt_irrefl _ inBounds

/-- An environment with the one name of an implicit scope, whose value lies in a new cell. -/
theorem World.Real.addImplicit {W : World} {h : Heap} {s : Store} (real : W.Real h s)
    {value : Value} (fits : W.Fits value) {name : String} {outer : EnvironmentId} {kind : FrameKind}
    (this : ∀ text object method made declarer, kind = .this text object method made declarer →
      name = "this" ∧ value = .instance object)
    (super : ∀ text parent, kind = .super text parent → name = "super" ∧ value = .class parent) :
    (W.addFrame (h.newEnvironment ⟨Table.empty.insert name value, some outer⟩).1
      ⟨kind, outer, single name ⟨s.cells.size⟩⟩).Real
      (h.newEnvironment ⟨Table.empty.insert name value, some outer⟩).2
      { s with cells := s.cells.push value } := by
  refine (real.newCell fits).addFrame rfl (fun x => ?_) (fun x c found => ?_)
    (fun text object method made declarer here => ?_) fun text parent here => ?_
  · rw [Table.find?_insert, Table.find?_empty]
    simp only [single]
    split
    · rw [Option.map_some, Store.cellAt_push, if_pos rfl]
    · rfl
  · obtain ⟨-, rfl⟩ := single_eq_some found
    simp
  · obtain ⟨rfl, rfl⟩ := this text object method made declarer here
    exact Table.find?_insert_self ..
  · obtain ⟨rfl, rfl⟩ := super text parent here
    exact Table.find?_insert_self ..

/-! ## Functions and instances -/

theorem Heap.Alike.functionCount {h : Heap} {s : Store} (alike : h.Alike s) :
    s.functions.size = h.functions.size := by
  have sizes := congrArg Array.size alike.functions
  rwa [Array.size_map, Array.size_map] at sizes

theorem Heap.Alike.newFunction {h : Heap} {s : Store} (alike : h.Alike s) (closure : Closure)
    (names : Names) :
    (h.newFunction closure).2.Alike { s with
      functions := s.functions.push ⟨closure.declaration, names, closure.isInitializer⟩ } := by
  refine { alike with functions := ?_ }
  simp only [Heap.newFunction, Array.map_push, alike.functions]

theorem World.Sound.addFunction {W : World} (sound : W.Sound V) {f : FunctionId} {code : Code}
    (unknown : W.functions f = none) (new : code.Sound V W f) :
    (W.addFunction f code).Sound V := by
  have later := World.Extends.addFunction unknown code
  refine sound.extend later sound.globals sound.separate (fun _ _ known => .inl known)
    (fun f' code' known => ?_) (fun _ _ known => .inl known) (fun _ _ known => .inl known)
    sound.chronicled
  rcases update_eq_some known with ⟨rfl, rfl⟩ | ⟨-, known⟩
  · exact .inr (new.mono later)
  · exact .inl known

theorem Joint.newFunction_lockstep {j : Joint V D} (code : Code)
    (new : ∀ f, code.Sound V j.world f) :
    j.Lockstep none (NotedRun.lift (Run.change (·.newFunction code.closure)))
      (LexicalRun.newFunction ⟨code.closure.declaration, code.names, code.closure.isInitializer⟩)
      fun j' a b => b = a ∧ j'.world.functions a = some code := by
  have related := j.related
  have count := related.alike.functionCount
  have unknown := related.real.unknown_function code.closure
  refine .change (a := ⟨j.heap.functions.size⟩) (b := ⟨j.heap.functions.size⟩)
    (by rw [World.addFunction, ← related.moments]; rfl) (by rw [heap, ← count]; rfl)
    (.addFunction unknown code) (related.sound.addFunction unknown (new _))
    (related.real.addFunction code count) (related.alike.newFunction code.closure code.names)
    ⟨rfl, rfl, rfl, rfl, fun _ present => present⟩ fun j' world _ _ => ⟨rfl, ?_⟩
  rw [world]
  exact Function.update_self ..

theorem Joint.newInstance_lockstep {j : Joint V D} {c : ClassId} {fact : ClassFact}
    (known : j.world.classes c = some fact) :
    j.Lockstep none (NotedRun.lift (Run.change (·.newInstance c))) (LexicalRun.newInstance c)
      fun j' a b => b = a ∧ j'.world.instances a = some c ∧
        j'.store.classes = j.store.classes := by
  have related := j.related
  have unknown := related.real.unknown_instance c
  have later := World.Extends.addInstance unknown c
  have count : j.store.instances.size = j.heap.instances.size := by rw [related.alike.instances]; rfl
  refine .change (a := ⟨j.heap.instances.size⟩) (b := ⟨j.heap.instances.size⟩)
    (by rw [World.addInstance, ← related.moments]; rfl) (by rw [← count]; rfl) later ?_
    (related.real.addInstance c)
    { related.alike with instances := by rw [related.alike.instances]; rfl }
    ⟨rfl, rfl, rfl, rfl, fun _ present => present⟩ fun j' world _ store => ⟨rfl, ?_, by rw [store]⟩
  · refine related.sound.extend later related.sound.globals related.sound.separate
      (fun _ _ known => .inl known) (fun _ _ known => .inl known) (fun _ _ known => .inl known)
      (fun i c' found => ?_) related.sound.chronicled
    rcases update_eq_some found with ⟨rfl, rfl⟩ | ⟨-, old⟩
    · exact .inr ⟨fact, known⟩
    · exact .inl old
  · rw [world]
    exact Function.update_self ..

theorem Joint.setField_lockstep {j : Joint V D} {i : InstanceId} {c : ClassId}
    (known : j.world.instances i = some c) {name : String} {value : Value}
    (fits : j.world.Fits value) :
    j.Lockstep none (NotedRun.lift (Run.change fun h => ((), h.setField i name value)))
      (LexicalRun.setField i name value) fun _ _ _ => True := by
  have related := j.related
  refine .change (a := ()) (b := ()) (by rw [← related.moments]; rfl) rfl (.refl _) related.sound
    (related.real.setField known fits)
    { related.alike with instances := by rw [related.alike.instances]; rfl }
    ⟨rfl, rfl, rfl, rfl, fun _ present => present⟩ fun _ _ _ _ => trivial

/-! ## Bound methods -/

/-- Method `f` may be bound to instance `i`. -/
def World.Binds (W : World) (i : InstanceId) (f : FunctionId) : Prop :=
  ∃ c declarer fact name, W.instances i = some c ∧ W.Inherits c declarer ∧
    W.classes declarer = some fact ∧ fact.methods.find? name = some f

/-- The function that a method becomes in environment `e`, where `this` lies in the cell. -/
def Code.bound (code : Code) (e : EnvironmentId) (this : CellId) : Code :=
  ⟨{ code.closure with environment := e }, code.names.extend "this" this, code.place, false⟩

/-- The environment made for the method of a class. -/
def Code.thisFrame (code : Code) (text : ClassText) (i : InstanceId) (f made : FunctionId)
    (declarer : ClassId) (this : CellId) : Frame :=
  ⟨.this text i f made declarer, code.closure.environment, single "this" this⟩

section Bound

variable {W W' : World} {i : InstanceId} {f made : FunctionId} {c declarer : ClassId}
  {fact : ClassFact} {name : String} {code : Code} {rest : List Level} {e : EnvironmentId}
  {cell : CellId}

theorem Code.Sound.bound (sound : code.Sound V W f) (unbound : code.unbound = true)
    (levels : code.place.levels = ⟨Resolver.implicitScope "this", .this fact.text⟩ :: rest)
    (later : W.Extends none W')
    (around : W'.frames e = some (code.thisFrame fact.text i f made declarer cell)) :
    (code.bound e cell).Sound V W' made := by
  -- The scope of the method lacked `this`, which is the one name of the new environment.
  have scope := sound.scope
  rw [Code.levels, unbound, if_pos rfl, levels, List.tail_cons] at scope
  have boundLevels : (code.bound e cell).levels =
      ⟨Resolver.implicitScope "this", .this fact.text⟩ :: rest := levels
  refine ⟨sound.visited, sound.placed, sound.settled, ?_, ?_, fun _ => ⟨fact.text, rest, levels⟩,
    fun _ level head text origin => ?_⟩
  · rw [boundLevels]
    exact World.Scoped.implicit around rfl (scope.mono later)
  · rw [boundLevels]
    simp [Code.bound]
  · obtain rfl : level = ⟨Resolver.implicitScope "this", .this fact.text⟩ := by
      rw [show (code.bound e cell).place = code.place from rfl, levels] at head
      exact (Option.some.inj head).symm
    obtain rfl := Origin.this.inj origin
    exact ⟨_, i, f, declarer, around, rfl⟩

/-- The world is sound in which the method is bound to the instance. -/
theorem World.Sound.addBound (sound : W.Sound V) (ofClass : W.instances i = some c)
    (inherits : W.Inherits c declarer) (declares : W.classes declarer = some fact)
    (found : fact.methods.find? name = some f) (known : W.functions f = some code)
    (unbound : code.unbound = true)
    (levels : code.place.levels = ⟨Resolver.implicitScope "this", .this fact.text⟩ :: rest)
    (inner : W.globals ≠ e) (unknownFrame : W.frames e = none)
    (unknownFunction : W.functions made = none)
    (unused : ∀ e frame x, W.frames e = some frame → frame.cells x ≠ some cell) :
    let frame := code.thisFrame fact.text i f made declarer cell
    let world := ((W.addFrame e frame).addFunction made (code.bound e cell)).addMoment
      (.bound f i made)
    W.Extends none world ∧ world.Sound V := by
  intro frame world
  -- The frame of `this` comes first, then the bound function, then the moment of binding.
  have laterFunction : (W.addFrame e frame).Extends none
      ((W.addFrame e frame).addFunction made (code.bound e cell)) :=
    .addFunction (W := W.addFrame e frame) unknownFunction _
  have later : W.Extends none world :=
    ((World.Extends.addFrame unknownFrame frame).trans laterFunction).trans (.addMoment _)
  have frameKnown : world.frames e = some frame := Function.update_self ..
  have codeKnown : world.functions made = some (code.bound e cell) := Function.update_self ..
  have boundSound := (sound.functions f code known).bound unbound levels later frameKnown
  have frameSound : frame.Sound world e := by
    refine ⟨⟨List.mem_cons_self, ⟨c, later.instances i c ofClass, later.inherits inherits⟩,
      ⟨fact, name, later.classes declarer fact declares, rfl, found⟩, code, code.bound e cell,
      later.functions f code known, rfl, codeKnown, rfl⟩, fun x c' at' => ?_⟩
    obtain ⟨rfl, -⟩ := single_eq_some at'
    exact List.mem_singleton.2 rfl
  refine ⟨later, sound.extend later ?_ (sound.separate_addFrame (fun x c' at' => ?_)
    fun x x' c' at' at'' => ?_) (fun e' frame' known' => ?_) (fun f' code' known' => ?_)
    (fun _ _ known => .inl known) (fun _ _ known => .inl known) ⟨trivial, sound.chronicled⟩⟩
  · exact (Function.update_of_ne inner ..).trans sound.globals
  · obtain ⟨-, rfl⟩ := single_eq_some at'
    exact unused
  · exact (single_eq_some at').1.trans (single_eq_some at'').1.symm
  · rcases update_eq_some known' with ⟨rfl, rfl⟩ | ⟨-, old⟩
    · exact .inr frameSound
    · exact .inl old
  · rcases update_eq_some known' with ⟨rfl, rfl⟩ | ⟨-, old⟩
    · exact .inr boundSound
    · exact .inl old

end Bound

theorem Joint.bindTo_lockstep {j : Joint V D} {i : InstanceId} {f : FunctionId}
    (binds : j.world.Binds i f) :
    j.Lockstep none (NotedRun.bindTo Moment.scribe i f) (LexicalRun.bindTo i f) fun j' a b =>
      b = a ∧ ∃ code, j'.world.functions a = some code ∧ code.unbound = false ∧
        code.closure.declaration = (j.heap.functionAt f).declaration := by
  obtain ⟨c, declarer, fact, name, ofClass, inherits, declares, found⟩ := binds
  have related := j.related
  have real := related.real
  obtain ⟨code, rest, known, unbound, inside, member, levels⟩ :=
    (related.sound.classes declarer fact declares).methods name f found
  obtain ⟨-, here, there⟩ := real.functions f code known
  let env : Environment :=
    ⟨Table.empty.insert "this" (.instance i), some code.closure.environment⟩
  let e : EnvironmentId := (j.heap.newEnvironment env).1
  let made : FunctionId := ⟨j.heap.functions.size⟩
  let code' : Code := code.bound e ⟨j.store.cells.size⟩
  obtain ⟨later, sound⟩ := related.sound.addBound ofClass inherits declares found known unbound
    levels (real.globals_ne_new env) (real.unknown_environment env)
    (real.unknown_function code.closure) real.unused
  have fits : j.world.Fits (.instance i) := ⟨c, ofClass⟩
  have realFrame := @World.Real.addImplicit _ _ _ real _ fits "this" code.closure.environment
    (.this fact.text i f made declarer) (by rintro _ _ _ _ _ ⟨⟩; exact ⟨rfl, rfl⟩) (by rintro _ _ ⟨⟩)
  have realW := (realFrame.addFunction code' related.alike.functionCount).addMoment (.bound f i made)
  have alike : (j.heap.newEnvironment env).2.Alike
      { j.store with cells := j.store.cells.push (.instance i) } := { related.alike with }
  -- The machine makes an environment and a function, the store a cell and a function.
  refine .change (a := made) (b := made) ?_ ?_ later sound realW
    (alike.newFunction code'.closure code'.names) ⟨rfl, rfl, rfl, rfl, fun _ present => present⟩
    fun j' world _ _ => ⟨rfl, code', ?_, rfl, ?_⟩
  · have bound : j.heap.bind f i =
        (made, ((j.heap.newEnvironment env).2.newFunction code'.closure).2) := by
      rw [Heap.bind, show j.heap.functionAt f = code.closure from here]
      rfl
    change EStateM.Result.ok (j.heap.bind f i).1
      (⟨{ j.traced.machine with heap := (j.heap.bind f i).2 },
        .bound f i (j.heap.bind f i).1 :: j.traced.notes⟩ : Traced) = _
    rw [bound, related.moments]
    rfl
  · change LexicalRun.newFunction { j.store.functionAt f with
      names := (j.store.functionAt f).names.extend "this" ⟨j.store.cells.size⟩ }
        { j.store with cells := j.store.cells.push (.instance i) } = _
    rw [there, LexicalRun.newFunction, related.alike.functionCount]
    rfl
  · rw [world]
    exact Function.update_self ..
  · exact (congrArg Closure.declaration here).symm

end Lox
