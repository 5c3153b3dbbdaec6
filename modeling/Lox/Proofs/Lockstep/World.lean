import Lox.Proofs.Account.Silence
import Lox.Proofs.Lexical.Evaluate
import Lox.Proofs.Trace.Lookups

/-!
# Worlds

A world tells, for the handles given out so far, which part of the program each of them came from: the
origin of the scope that an environment stands for, the place of the function that a closure runs, the
text of a class. It also tells in which cell of the lexical store a name of an environment lies. What
a world tells of a handle never changes; only the environment of the statement that is running may
gain names.
-/

namespace Lox

open Lexical (CellId Names)

/-! ## What a world tells -/

/-- What an environment was made for. -/
inductive FrameKind where
  | block (body : List Stmt)
  | call (declaration : Function) (f : FunctionId)
  /-- Method `method`, which class `declarer` declares, was bound to `object`; that made `made`. -/
  | this (text : ClassText) (object : InstanceId) (method made : FunctionId) (declarer : ClassId)
  | super (text : ClassText) (parent : ClassId)

/-- The part of the program whose scope the environment stands for. -/
def FrameKind.origin : FrameKind → Origin
  | block body => .block body
  | call declaration _ => .function declaration
  | this text .. => .this text
  | super text _ => .super text

theorem FrameKind.eq_call {kind : FrameKind} {declaration : Function}
    (origin : kind.origin = .function declaration) : ∃ f, kind = .call declaration f := by
  cases kind with
  | call declaration' f =>
    obtain rfl := Origin.function.inj origin
    exact ⟨f, rfl⟩
  | _ => cases origin

theorem FrameKind.eq_this {kind : FrameKind} {text : ClassText} (origin : kind.origin = .this text) :
    ∃ object method made declarer, kind = .this text object method made declarer := by
  cases kind with
  | this text' object method made declarer =>
    obtain rfl := Origin.this.inj origin
    exact ⟨object, method, made, declarer, rfl⟩
  | _ => cases origin

/-- An environment other than the globals: the one around it, and the cells of its names. -/
structure Frame where
  kind : FrameKind
  outer : EnvironmentId
  cells : String → Option CellId

/-- A function on the heap, with the names that its counterpart closes over. -/
structure Code where
  closure : Closure
  names : Names
  /-- The place around the declaration. -/
  place : Place
  /-- Whether this is a method in the table of a class, which is never called itself. -/
  unbound : Bool

/-- The levels around the place that the function closes over: a method still lacks `this`. -/
def Code.levels (code : Code) : List Level :=
  if code.unbound then code.place.levels.tail else code.place.levels

structure ClassFact where
  text : ClassText
  parent : Option ClassId
  /-- The environment that the methods close over. -/
  inner : EnvironmentId
  methods : Table FunctionId

structure World where
  globals : EnvironmentId
  frames : EnvironmentId → Option Frame
  functions : FunctionId → Option Code
  classes : ClassId → Option ClassFact
  instances : InstanceId → Option ClassId
  /-- What has happened so far, the latest first. -/
  moments : List Moment

namespace World

/-- The handle in a value is known, and a function can be called. -/
def Fits (W : World) : Value → Prop
  | .function f => ∃ code, W.functions f = some code ∧ code.unbound = false
  | .class c => ∃ fact, W.classes c = some fact
  | .instance i => ∃ c, W.instances i = some c
  | _ => True

/-- Class `declarer` is class `c` or one of the classes above it. -/
inductive Inherits (W : World) : ClassId → ClassId → Prop where
  | refl (c : ClassId) : W.Inherits c c
  | step {c parent declarer : ClassId} {fact : ClassFact} :
      W.classes c = some fact → fact.parent = some parent → W.Inherits parent declarer →
      W.Inherits c declarer

theorem Inherits.trans {W : World} {a b c : ClassId} (first : W.Inherits a b)
    (second : W.Inherits b c) : W.Inherits a c := by
  induction first with
  | refl => exact second
  | step known parent _ inductionHypothesis => exact .step known parent (inductionHypothesis second)

end World

/-! ## Later worlds -/

/-- The frame is the same up to new names. -/
structure Frame.Grows (before after : Frame) : Prop where
  kind : after.kind = before.kind
  outer : after.outer = before.outer
  cells : ∀ x c, before.cells x = some c → after.cells x = some c

theorem Frame.Grows.refl (frame : Frame) : frame.Grows frame := ⟨rfl, rfl, fun _ _ found => found⟩

theorem Frame.Grows.trans {a b c : Frame} (first : a.Grows b) (second : b.Grows c) : a.Grows c :=
  ⟨second.kind.trans first.kind, second.outer.trans first.outer,
    fun x cell found => second.cells x cell (first.cells x cell found)⟩

/-- World `W'` is `W` some time later. Only environment `o`, if there is one, got new names. -/
structure World.Extends (o : Option EnvironmentId) (W W' : World) : Prop where
  globals : W'.globals = W.globals
  frames : ∀ e frame, W.frames e = some frame →
    ∃ frame', W'.frames e = some frame' ∧ frame.Grows frame' ∧ (o ≠ some e → frame' = frame)
  functions : ∀ f code, W.functions f = some code → W'.functions f = some code
  classes : ∀ c fact, W.classes c = some fact → W'.classes c = some fact
  instances : ∀ i c, W.instances i = some c → W'.instances i = some c
  moments : ∀ m ∈ W.moments, m ∈ W'.moments

namespace World.Extends

variable {o : Option EnvironmentId} {W W' W'' : World}

theorem refl (W : World) : W.Extends o W :=
  ⟨rfl, fun _ frame known => ⟨frame, known, .refl frame, fun _ => rfl⟩, fun _ _ known => known,
    fun _ _ known => known, fun _ _ known => known, fun _ member => member⟩

theorem trans (first : W.Extends o W') (second : W'.Extends o W'') : W.Extends o W'' := by
  refine ⟨second.globals.trans first.globals, fun e frame known => ?_,
    fun f code known => second.functions f code (first.functions f code known),
    fun c fact known => second.classes c fact (first.classes c fact known),
    fun i c known => second.instances i c (first.instances i c known),
    fun m member => second.moments m (first.moments m member)⟩
  obtain ⟨frame', known', grows, same⟩ := first.frames e frame known
  obtain ⟨frame'', known'', grows', same'⟩ := second.frames e frame' known'
  exact ⟨frame'', known'', grows.trans grows', fun other => (same' other).trans (same other)⟩

theorem weaken (later : W.Extends none W') : W.Extends o W' := by
  refine ⟨later.globals, fun e frame known => ?_, later.functions, later.classes,
    later.instances, later.moments⟩
  obtain ⟨frame', known', grows, same⟩ := later.frames e frame known
  exact ⟨frame', known', grows, fun _ => same (by simp)⟩

/-- An environment that was not there before may gain names unnoticed. -/
theorem fresh {e : EnvironmentId} (first : W.Extends none W') (second : W'.Extends (some e) W'')
    (unknown : W.frames e = none) : W.Extends none W'' := by
  have whole := (first.weaken (o := some e)).trans second
  refine ⟨whole.globals, fun d frame known => ?_, whole.functions, whole.classes, whole.instances,
    whole.moments⟩
  obtain ⟨frame', known', grows, same⟩ := whole.frames d frame known
  refine ⟨frame', known', grows, fun _ => same ?_⟩
  rintro ⟨⟩
  rw [unknown] at known
  cases known

/-- An environment of an earlier world that may not grow is the same. -/
theorem frame (later : W.Extends o W') {e : EnvironmentId} {frame : Frame}
    (known : W.frames e = some frame) (other : o ≠ some e) : W'.frames e = some frame := by
  obtain ⟨frame', known', -, same⟩ := later.frames e frame known
  rw [known', same other]

theorem fits (later : W.Extends o W') {value : Value} (fits : W.Fits value) : W'.Fits value := by
  cases value with
  | function f =>
    obtain ⟨code, known, callable⟩ := fits
    exact ⟨code, later.functions f code known, callable⟩
  | «class» c =>
    obtain ⟨fact, known⟩ := fits
    exact ⟨fact, later.classes c fact known⟩
  | «instance» i =>
    obtain ⟨c, known⟩ := fits
    exact ⟨c, later.instances i c known⟩
  | _ => trivial

theorem inherits (later : W.Extends o W') {c declarer : ClassId}
    (inherits : W.Inherits c declarer) : W'.Inherits c declarer := by
  induction inherits with
  | refl c => exact .refl c
  | step known parent _ inductionHypothesis =>
    exact .step (later.classes _ _ known) parent inductionHypothesis

end World.Extends

/-! ## Names in scope -/

/-- The environment stands for the levels, and `find` gives the cell that each name means there. -/
def World.Scoped (W : World) :
    EnvironmentId → List Level → (String → Option CellId) → Prop
  | e, [], find => e = W.globals ∧ ∀ x, find x = none
  | e, level :: outer, find => ∃ frame, W.frames e = some frame ∧
      frame.kind.origin = level.origin ∧
      (∀ x, level.scope.find? x = some true → ∃ c, frame.cells x = some c) ∧
      ∃ around, W.Scoped frame.outer outer around ∧
        ∀ x, find x = if level.scope.find? x = some true then frame.cells x else around x

theorem World.Scoped.mono {o : Option EnvironmentId} {W W' : World} (later : W.Extends o W')
    {e : EnvironmentId} {levels : List Level} {find : String → Option CellId}
    (inside : W.Scoped e levels find) : W'.Scoped e levels find := by
  induction levels generalizing e find with
  | nil => exact ⟨inside.1.trans later.globals.symm, inside.2⟩
  | cons level outer inductionHypothesis =>
    obtain ⟨frame, known, origin, complete, around, outside, found⟩ := inside
    obtain ⟨frame', known', grows, -⟩ := later.frames e frame known
    refine ⟨frame', known', grows.kind ▸ origin, fun x flagged => ?_, around, ?_, fun x => ?_⟩
    · obtain ⟨c, here⟩ := complete x flagged
      exact ⟨c, grows.cells x c here⟩
    · rw [grows.outer]
      exact inductionHypothesis outside
    · rw [found x]
      by_cases flagged : level.scope.find? x = some true
      · obtain ⟨c, here⟩ := complete x flagged
        rw [if_pos flagged, if_pos flagged, here, grows.cells x c here]
      · rw [if_neg flagged, if_neg flagged]

/-- Every name of the scopes around the place is complete. -/
def Place.Settled (p : Place) : Prop := ∀ level ∈ p.levels, level.scope.Settled

/-- What runs in environment `e` runs at place `p`, with the names that are in scope there. -/
structure World.Stands (W : World) (e : EnvironmentId) (p : Place) (names : Names) : Prop where
  scope : W.Scoped e p.levels names.find?
  global : names = .global ↔ p.levels = []
  /-- The environment holds just the names that are complete by now. -/
  exact : ∀ frame, W.frames e = some frame → ∀ level ∈ p.levels.head?, ∀ x c,
    frame.cells x = some c → level.scope.find? x = some true
  tail : ∀ level ∈ p.levels.tail, level.scope.Settled

theorem World.Stands.mono {W W' : World} {e : EnvironmentId} {p : Place} {names : Names}
    (stands : W.Stands e p names) {o : Option EnvironmentId} (later : W.Extends o W')
    (other : o ≠ some e) : W'.Stands e p names := by
  refine ⟨stands.scope.mono later, stands.global, fun frame known level head => ?_, stands.tail⟩
  obtain ⟨levels, context⟩ := p
  cases levels with
  | nil => cases head
  | cons first outer =>
    obtain ⟨old, oldKnown, -⟩ := stands.scope
    rw [later.frame oldKnown other] at known
    obtain rfl := Option.some.inj known
    exact stands.exact old oldKnown level head

end Lox
