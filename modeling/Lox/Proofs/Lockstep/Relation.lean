import Lox.Proofs.Heap.Frames
import Lox.Proofs.Lockstep.World

/-!
# A machine and a lexical store in step

A world is sound if what it tells of the handles fits together, and real if machine and store are as it
tells. Machine and store are related if a sound world is real for them and all else is the same.
-/

namespace Lox

open Lexical (CellId Names Store)

/-! ## Parts of programs that may run -/

/-- The visits have no faults, and the distances are those that the resolver found at them. -/
structure Ruled (V : Visit → Prop) (D : Distances) : Prop where
  lawful : ∀ v, V v → v.Lawful
  faultless : ∀ v, V v → v.faults = []
  distance : ∀ v form o, V v → v.mention? = some (form, o) →
    D.find? o.id = v.place.distance? o.name

/-! ## Sound worlds -/

/-- What a world has to tell of the origin of an environment. -/
def FrameKind.Sound (W : World) (e outer : EnvironmentId) : FrameKind → Prop
  | .block _ | .super _ _ => True
  | .call declaration f => .called f e ∈ W.moments ∧
      ∃ code, W.functions f = some code ∧ code.unbound = false ∧
        code.closure.declaration = declaration ∧ code.closure.environment = outer
  | .this text object method made declarer => .bound method object made ∈ W.moments ∧
      (∃ c, W.instances object = some c ∧ W.Inherits c declarer) ∧
      (∃ fact name, W.classes declarer = some fact ∧ fact.text = text ∧
        fact.methods.find? name = some method) ∧
      ∃ code code', W.functions method = some code ∧ code.closure.environment = outer ∧
        W.functions made = some code' ∧ code'.closure = { code.closure with environment := e }

structure Frame.Sound (W : World) (e : EnvironmentId) (frame : Frame) : Prop where
  kind : frame.kind.Sound W e frame.outer
  declared : ∀ x c, frame.cells x = some c → x ∈ frame.kind.origin.names

/-- The function may be called, or bound, and runs at its place. -/
structure Code.Sound (V : Visit → Prop) (W : World) (f : FunctionId) (code : Code) : Prop where
  visited : ∀ v ∈ code.closure.declaration.visits code.place, V v
  placed : code.closure.declaration.WellPlaced
  settled : code.place.Settled
  scope : W.Scoped code.closure.environment code.levels code.names.find?
  global : code.names = .global ↔ code.levels = []
  method : code.closure.isInitializer = true ∨ code.unbound = true → ∃ text rest,
    code.place.levels = ⟨Resolver.implicitScope "this", .this text⟩ :: rest
  /-- A function inside an environment of `this` is the one for which that was made. -/
  anchor : code.unbound = false → ∀ level ∈ code.place.levels.head?, ∀ text,
    level.origin = .this text → ∃ frame object method declarer,
      W.frames code.closure.environment = some frame ∧
        frame.kind = .this text object method f declarer

structure ClassFact.Sound (W : World) (c : ClassId) (fact : ClassFact) : Prop where
  declared : .declared fact.text fact.parent fact.inner c ∈ W.moments
  hasParent : fact.parent.isSome = fact.text.superclass.isSome
  parent : ∀ k, fact.parent = some k → (∃ above, W.classes k = some above) ∧
    ∃ frame, W.frames fact.inner = some frame ∧ frame.kind = .super fact.text k
  methods : ∀ name f, fact.methods.find? name = some f → ∃ code rest,
    W.functions f = some code ∧ code.unbound = true ∧ code.closure.environment = fact.inner ∧
      code.closure.declaration ∈ fact.text.methods ∧
      code.place.levels = ⟨Resolver.implicitScope "this", .this fact.text⟩ :: rest

structure World.Sound (V : Visit → Prop) (W : World) : Prop where
  globals : W.frames W.globals = none
  separate : ∀ e e' frame frame' x x' c, W.frames e = some frame → W.frames e' = some frame' →
    frame.cells x = some c → frame'.cells x' = some c → e = e' ∧ x = x'
  frames : ∀ e frame, W.frames e = some frame → frame.Sound W e
  functions : ∀ f code, W.functions f = some code → code.Sound V W f
  classes : ∀ c fact, W.classes c = some fact → fact.Sound W c
  instances : ∀ i c, W.instances i = some c → ∃ fact, W.classes c = some fact
  chronicled : Chronicled V W.moments

section Later

variable {V : Visit → Prop} {o : Option EnvironmentId} {W W' : World} (later : W.Extends o W')
include later

theorem FrameKind.Sound.mono {e outer : EnvironmentId} {kind : FrameKind}
    (sound : kind.Sound W e outer) : kind.Sound W' e outer := by
  cases kind with
  | block body => trivial
  | super text parent => trivial
  | call declaration f =>
    obtain ⟨called, code, known, rest⟩ := sound
    exact ⟨later.moments _ called, code, later.functions f code known, rest⟩
  | this text object method made declarer =>
    obtain ⟨bound, ⟨c, ofClass, inherits⟩, ⟨fact, name, class', text, found⟩, code, code', known,
      outside, known', closure⟩ := sound
    exact ⟨later.moments _ bound, ⟨c, later.instances _ c ofClass, later.inherits inherits⟩,
      ⟨fact, name, later.classes _ fact class', text, found⟩, code, code',
      later.functions _ code known, outside, later.functions _ code' known', closure⟩

theorem Frame.Sound.mono {e : EnvironmentId} {frame : Frame} (sound : frame.Sound W e) :
    frame.Sound W' e :=
  ⟨sound.kind.mono later, sound.declared⟩

theorem Code.Sound.mono {f : FunctionId} {code : Code} (sound : code.Sound V W f) :
    code.Sound V W' f := by
  refine ⟨sound.visited, sound.placed, sound.settled, sound.scope.mono later, sound.global,
    sound.method, fun callable level head text origin => ?_⟩
  obtain ⟨frame, object, method, declarer, known, kind⟩ :=
    sound.anchor callable level head text origin
  obtain ⟨frame', known', grows, -⟩ := later.frames _ frame known
  exact ⟨frame', object, method, declarer, known', grows.kind.trans kind⟩

theorem ClassFact.Sound.mono {c : ClassId} {fact : ClassFact} (sound : fact.Sound W c) :
    fact.Sound W' c := by
  refine ⟨later.moments _ sound.declared, sound.hasParent, fun k parent => ?_, fun name f found => ?_⟩
  · obtain ⟨⟨above, known⟩, frame, inner, kind⟩ := sound.parent k parent
    obtain ⟨frame', inner', grows, -⟩ := later.frames _ frame inner
    exact ⟨⟨above, later.classes k above known⟩, frame', inner', grows.kind.trans kind⟩
  · obtain ⟨code, rest, known, facts⟩ := sound.methods name f found
    exact ⟨code, rest, later.functions f code known, facts⟩

/-- A later world is sound if what it tells of the new handles fits. -/
theorem World.Sound.extend (sound : W.Sound V) (globals : W'.frames W'.globals = none)
    (separate : ∀ e e' frame frame' x x' c, W'.frames e = some frame → W'.frames e' = some frame' →
      frame.cells x = some c → frame'.cells x' = some c → e = e' ∧ x = x')
    (frames : ∀ e frame, W'.frames e = some frame → W.frames e = some frame ∨ frame.Sound W' e)
    (functions : ∀ f code, W'.functions f = some code →
      W.functions f = some code ∨ code.Sound V W' f)
    (classes : ∀ c fact, W'.classes c = some fact → W.classes c = some fact ∨ fact.Sound W' c)
    (instances : ∀ i c, W'.instances i = some c →
      W.instances i = some c ∨ ∃ fact, W'.classes c = some fact)
    (chronicled : Chronicled V W'.moments) : W'.Sound V := by
  refine ⟨globals, separate, fun e frame known => ?_, fun f code known => ?_, fun c fact known => ?_,
    fun i c known => ?_, chronicled⟩
  · exact (frames e frame known).elim (fun old => (sound.frames e frame old).mono later) id
  · exact (functions f code known).elim (fun old => (sound.functions f code old).mono later) id
  · exact (classes c fact known).elim (fun old => (sound.classes c fact old).mono later) id
  · refine (instances i c known).elim (fun old => ?_) id
    obtain ⟨fact, above⟩ := sound.instances i c old
    exact ⟨fact, later.classes c fact above⟩

end Later

/-! ## Real worlds -/

/-- The frame is an environment on the heap, and its cells lie in the store. -/
structure Frame.Real (h : Heap) (s : Store) (e : EnvironmentId) (frame : Frame) : Prop where
  inBounds : e.index < h.environments.size
  enclosing : (h.environmentAt e).enclosing = some frame.outer
  holds : ∀ x, (h.environmentAt e).names.find? x = (frame.cells x).map s.cellAt
  bounded : ∀ x c, frame.cells x = some c → c.index < s.cells.size
  this : ∀ text object method made declarer, frame.kind = .this text object method made declarer →
    (h.environmentAt e).names.find? "this" = some (.instance object)
  super : ∀ text parent, frame.kind = .super text parent →
    (h.environmentAt e).names.find? "super" = some (.class parent)

structure World.Real (W : World) (h : Heap) (s : Store) : Prop where
  frames : ∀ e frame, W.frames e = some frame → frame.Real h s e
  globals : W.globals.index < h.environments.size
  globalNames : h.environmentAt W.globals = ⟨s.globals, none⟩
  functions : ∀ f code, W.functions f = some code → f.index < h.functions.size ∧
    h.functionAt f = code.closure ∧
    s.functionAt f = ⟨code.closure.declaration, code.names, code.closure.isInitializer⟩
  classes : ∀ c fact, W.classes c = some fact → c.index < h.classes.size ∧
    h.classAt c = ⟨fact.text.name.name, fact.parent, fact.methods⟩
  instances : ∀ i c, W.instances i = some c → i.index < h.instances.size ∧
    (h.instanceAt i).ofClass = c
  cellsFit : ∀ c, W.Fits (s.cellAt c)
  globalsFit : ∀ x v, s.globals.find? x = some v → W.Fits v
  fieldsFit : ∀ i x v, (h.instanceAt i).fields.find? x = some v → W.Fits v

/-- Heap and store hold the same objects, up to what functions close over. -/
structure Heap.Alike (h : Heap) (s : Store) : Prop where
  natives : s.natives = h.natives
  functions : s.functions.map (fun f => (f.declaration, f.isInitializer)) =
    h.functions.map (fun f => (f.declaration, f.isInitializer))
  classes : s.classes = h.classes
  instances : s.instances = h.instances

structure Related (V : Visit → Prop) (D : Distances) (W : World) (t : Traced) (s : Store) : Prop where
  sound : W.Sound V
  real : W.Real t.machine.heap s
  alike : t.machine.heap.Alike s
  /-- Reading the clock is the only thing that a native function does. -/
  natives : ∀ n ∈ s.natives, n.body = .clock
  globals : t.machine.globals = W.globals
  distances : t.machine.distances = D
  moments : t.notes = W.moments
  printed : s.printed = t.machine.printed
  clock : s.clock = t.machine.clock
  readings : s.readings = t.machine.readings

/-- A machine and a store that a world relates. -/
structure Joint (V : Visit → Prop) (D : Distances) where
  world : World
  traced : Traced
  store : Store
  related : Related V D world traced store

namespace Joint

variable {V : Visit → Prop} {D : Distances}

def heap (j : Joint V D) : Heap := j.traced.machine.heap

def current (j : Joint V D) : EnvironmentId := j.traced.machine.current

/-- What runs now runs at place `p`, with the names in scope there. -/
def Stands (j : Joint V D) (p : Place) (names : Names) : Prop := j.world.Stands j.current p names

/-- The same with another current environment. -/
def withCurrent (j : Joint V D) (e : EnvironmentId) : Joint V D :=
  { j with
    traced := { j.traced with machine := { j.traced.machine with current := e } }
    related := { j.related with } }

/-- `j'` is `j` some time later, in the same environment. Only environment `o` got new names. -/
structure Before (o : Option EnvironmentId) (j j' : Joint V D) : Prop where
  world : j.world.Extends o j'.world
  current : j'.current = j.current
  globals : ∀ x, j.store.globals.contains x = true → j'.store.globals.contains x = true

namespace Before

variable {o : Option EnvironmentId} {j j' j'' : Joint V D}

theorem refl (j : Joint V D) : j.Before o j := ⟨.refl _, rfl, fun _ present => present⟩

theorem trans (first : j.Before o j') (second : j'.Before o j'') : j.Before o j'' :=
  ⟨first.world.trans second.world, second.current.trans first.current,
    fun x present => second.globals x (first.globals x present)⟩

theorem weaken (before : j.Before none j') : j.Before o j' :=
  ⟨before.world.weaken, before.current, before.globals⟩

theorem stands (before : j.Before none j') {p : Place} {names : Names} (stands : j.Stands p names) :
    j'.Stands p names := by
  rw [Stands, before.current]
  exact World.Stands.mono stands before.world (by simp)

end Before

end Joint

end Lox
