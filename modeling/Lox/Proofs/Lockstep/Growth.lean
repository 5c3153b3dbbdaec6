import Lox.Proofs.Lockstep.Steps
import Mathlib.Logic.Function.Basic

/-!
# How worlds grow

Each way in which heap and store may change together, with the world that is real for them afterwards.
Whether that world is sound is a question of its own, since some handles are only sound together.
-/

namespace Lox

open Lexical (CellId Names Store)

namespace World

def addFrame (W : World) (e : EnvironmentId) (frame : Frame) : World :=
  { W with frames := Function.update W.frames e (some frame) }

def addFunction (W : World) (f : FunctionId) (code : Code) : World :=
  { W with functions := Function.update W.functions f (some code) }

def addClass (W : World) (c : ClassId) (fact : ClassFact) : World :=
  { W with classes := Function.update W.classes c (some fact) }

def addInstance (W : World) (i : InstanceId) (c : ClassId) : World :=
  { W with instances := Function.update W.instances i (some c) }

def addMoment (W : World) (m : Moment) : World := { W with moments := m :: W.moments }

end World

/-- The frame with a cell for one more name. -/
def Frame.addName (frame : Frame) (name : String) (c : CellId) : Frame :=
  { frame with cells := Function.update frame.cells name (some c) }

theorem update_eq_some {ι : Type} {κ : Type} [DecidableEq ι] {f : ι → Option κ} {i k : ι} {a b : κ}
    (found : Function.update f i (some a) k = some b) : (k = i ∧ b = a) ∨ (k ≠ i ∧ f k = some b) := by
  by_cases same : k = i
  · subst same
    rw [Function.update_self] at found
    exact .inl ⟨rfl, (Option.some.inj found).symm⟩
  · rw [Function.update_of_ne same] at found
    exact .inr ⟨same, found⟩

theorem update_of_known {ι : Type} {κ : Type} [DecidableEq ι] {f : ι → Option κ} {i k : ι} {a b : κ}
    (unknown : f i = none) (known : f k = some b) : Function.update f i (some a) k = some b := by
  rw [Function.update_of_ne, known]
  rintro rfl
  rw [unknown] at known
  cases known

/-! ## Later worlds -/

namespace World.Extends

variable {W : World}

theorem addFrame {e : EnvironmentId} (unknown : W.frames e = none) (frame : Frame) :
    W.Extends none (W.addFrame e frame) :=
  ⟨rfl, fun _ frame known => ⟨frame, update_of_known unknown known, .refl frame, fun _ => rfl⟩,
    fun _ _ known => known, fun _ _ known => known, fun _ _ known => known, fun _ member => member⟩

theorem addFunction {f : FunctionId} (unknown : W.functions f = none) (code : Code) :
    W.Extends none (W.addFunction f code) :=
  ⟨rfl, fun _ frame known => ⟨frame, known, .refl frame, fun _ => rfl⟩,
    fun _ _ known => update_of_known unknown known, fun _ _ known => known, fun _ _ known => known,
    fun _ member => member⟩

theorem addClass {c : ClassId} (unknown : W.classes c = none) (fact : ClassFact) :
    W.Extends none (W.addClass c fact) :=
  ⟨rfl, fun _ frame known => ⟨frame, known, .refl frame, fun _ => rfl⟩, fun _ _ known => known,
    fun _ _ known => update_of_known unknown known, fun _ _ known => known, fun _ member => member⟩

theorem addInstance {i : InstanceId} (unknown : W.instances i = none) (c : ClassId) :
    W.Extends none (W.addInstance i c) :=
  ⟨rfl, fun _ frame known => ⟨frame, known, .refl frame, fun _ => rfl⟩, fun _ _ known => known,
    fun _ _ known => known, fun _ _ known => update_of_known unknown known, fun _ member => member⟩

theorem addMoment (m : Moment) : W.Extends none (W.addMoment m) :=
  ⟨rfl, fun _ frame known => ⟨frame, known, .refl frame, fun _ => rfl⟩, fun _ _ known => known,
    fun _ _ known => known, fun _ _ known => known, fun _ member => List.mem_cons_of_mem m member⟩

theorem addName {e : EnvironmentId} {frame : Frame} (known : W.frames e = some frame) {name : String}
    (absent : frame.cells name = none) (c : CellId) :
    W.Extends (some e) (W.addFrame e (frame.addName name c)) := by
  refine ⟨rfl, fun e' frame' known' => ?_, fun _ _ known => known, fun _ _ known => known,
    fun _ _ known => known, fun _ member => member⟩
  by_cases same : e' = e
  · subst same
    obtain rfl := Option.some.inj (known.symm.trans known')
    exact ⟨frame.addName name c, Function.update_self .., ⟨rfl, rfl, fun x cell found =>
      update_of_known absent found⟩, fun other => absurd rfl other⟩
  · exact ⟨frame', (Function.update_of_ne same ..).trans known', .refl frame', fun _ => rfl⟩

end World.Extends

/-! ## Stores -/

namespace Lexical.Store

theorem cellAt_push (s : Store) (value : Value) (c : CellId) :
    ({ s with cells := s.cells.push value } : Store).cellAt c =
      if c = ⟨s.cells.size⟩ then value else s.cellAt c := by
  obtain ⟨index⟩ := c
  simp only [cellAt, getD_push, CellId.mk.injEq]

theorem cellAt_set (s : Store) (c c' : CellId) (value : Value) (inBounds : c.index < s.cells.size) :
    ({ s with cells := s.cells.setIfInBounds c.index value } : Store).cellAt c' =
      if c = c' then value else s.cellAt c' := by
  obtain ⟨index⟩ := c
  obtain ⟨index'⟩ := c'
  simp only [cellAt, getD_set, CellId.mk.injEq, inBounds, and_true]

theorem functionAt_push (s : Store) (closure : Lexical.Closure) (f : FunctionId) :
    ({ s with functions := s.functions.push closure } : Store).functionAt f =
      if f = ⟨s.functions.size⟩ then closure else s.functionAt f := by
  obtain ⟨index⟩ := f
  simp only [functionAt, getD_push, FunctionId.mk.injEq]

end Lexical.Store

/-! ## Real worlds -/

/-- Defining a name in one environment leaves the others as they are. -/
theorem Frame.Real.define_other {h : Heap} {s : Store} {e e' : EnvironmentId} {frame : Frame}
    (real : frame.Real h s e') (inBounds : e.index < h.environments.size) (other : e ≠ e')
    (name : String) (value : Value) : frame.Real (h.define e name value) s e' := by
  have same : (h.define e name value).environmentAt e' = h.environmentAt e' :=
    (h.environmentAt_define e e' name value inBounds).trans (if_neg other)
  exact ⟨by rw [Heap.size_define]; exact real.inBounds, by rw [same]; exact real.enclosing,
    fun x => by rw [same]; exact real.holds x, real.bounded, by rw [same]; exact real.this,
    by rw [same]; exact real.super⟩

/-- A frame is real by the environments and the cells alone. -/
theorem Frame.Real.congr {h h' : Heap} {s s' : Store} {e : EnvironmentId} {frame : Frame}
    (real : frame.Real h s e) (environments : h'.environments = h.environments)
    (cells : s'.cells = s.cells) : frame.Real h' s' e := by
  have environmentAt : h'.environmentAt e = h.environmentAt e := by
    rw [Heap.environmentAt, Heap.environmentAt, environments]
  have cellAt : s'.cellAt = s.cellAt := by
    funext c
    rw [Store.cellAt, Store.cellAt, cells]
  exact ⟨environments ▸ real.inBounds, environmentAt ▸ real.enclosing,
    environmentAt ▸ cellAt ▸ real.holds, cells ▸ real.bounded, environmentAt ▸ real.this,
    environmentAt ▸ real.super⟩

/-- Environments of which a world tells are not the globals. -/
theorem World.ne_globals {W : World} (unknown : W.frames W.globals = none) {e : EnvironmentId}
    {frame : Frame} (known : W.frames e = some frame) : e ≠ W.globals := by
  rintro rfl
  rw [unknown] at known
  cases known

namespace World.Real

variable {W : World} {h : Heap} {s : Store} (real : W.Real h s)
include real

/-- No environment has the cell that comes next. -/
theorem unused : ∀ e frame x, W.frames e = some frame → frame.cells x ≠ some ⟨s.cells.size⟩ :=
  fun e frame x known found => Nat.lt_irrefl _ ((real.frames e frame known).bounded x _ found)

/-- A new cell belongs to no environment yet. -/
theorem newCell {value : Value} (fits : W.Fits value) :
    W.Real h { s with cells := s.cells.push value } := by
  refine { real with frames := fun e frame known => ?_, cellsFit := fun c => ?_ }
  · have old := real.frames e frame known
    refine { old with holds := fun x => ?_, bounded := fun x c found => ?_ }
    · rw [old.holds x]
      cases found : frame.cells x with
      | none => rfl
      | some c =>
        have bound := old.bounded x c found
        rw [Option.map_some, Option.map_some, Store.cellAt_push, if_neg]
        -- The cells of the environments all lie below the new one.
        rintro rfl
        exact Nat.lt_irrefl _ bound
    · simpa using Nat.lt_succ_of_lt (old.bounded x c found)
  · rw [Store.cellAt_push]
    split
    · exact fits
    · exact real.cellsFit c

/-- An environment gets a new name, whose cell is there already. -/
theorem addName (unknown : W.frames W.globals = none) {e : EnvironmentId} {frame : Frame}
    (known : W.frames e = some frame) {name : String} (absent : frame.cells name = none) {c : CellId}
    (bound : c.index < s.cells.size) :
    (W.addFrame e (frame.addName name c)).Real (h.define e name (s.cellAt c)) s := by
  have later := World.Extends.addName known absent c
  have here := real.frames e frame known
  have names := h.environmentAt_define e e name (s.cellAt c) here.inBounds
  have others := fun e' (other : e ≠ e') =>
    (h.environmentAt_define e e' name (s.cellAt c) here.inBounds).trans (if_neg other)
  rw [if_pos rfl] at names
  -- The name is new, so no value that the environment has is overwritten.
  have keeps : ∀ x v, (h.environmentAt e).names.find? x = some v →
      ((h.define e name (s.cellAt c)).environmentAt e).names.find? x = some v := by
    intro x v found
    rw [names, Table.find?_insert_of_ne, found]
    rintro rfl
    rw [here.holds, absent] at found
    cases found
  refine { real with
    frames := fun e' frame' known' => ?_
    globals := by rw [Heap.size_define]; exact real.globals
    globalNames := (others _ (World.ne_globals unknown known)).trans real.globalNames
    cellsFit := fun c => later.fits (real.cellsFit c)
    globalsFit := fun x v found => later.fits (real.globalsFit x v found)
    fieldsFit := fun i x v found => later.fits (real.fieldsFit i x v found) }
  rcases update_eq_some known' with ⟨rfl, rfl⟩ | ⟨other, known'⟩
  · refine ⟨by rw [Heap.size_define]; exact here.inBounds, by rw [names]; exact here.enclosing,
      fun x => ?_, fun x c' found => ?_, fun text object method made declarer kind =>
      keeps _ _ (here.this text object method made declarer kind),
      fun text parent kind => keeps _ _ (here.super text parent kind)⟩
    · rw [names, Table.find?_insert, here.holds]
      by_cases same : name = x
      · subst same
        simp [Frame.addName]
      · simp [Frame.addName, Function.update_of_ne (Ne.symm same), same]
    · rcases update_eq_some found with ⟨-, rfl⟩ | ⟨-, found⟩
      · exact bound
      · exact here.bounded x c' found
  · exact (real.frames e' frame' known').define_other here.inBounds (Ne.symm other) name _

/-- A name of an environment and its cell get a new value together. -/
theorem holds_setCell {V : Visit → Prop} (sound : W.Sound V) {e : EnvironmentId} {frame : Frame}
    (known : W.frames e = some frame) {name : String} {c : CellId}
    (found : frame.cells name = some c) (value : Value) {e' : EnvironmentId} {frame' : Frame}
    (known' : W.frames e' = some frame') (x : String) :
    ((h.define e name value).environmentAt e').names.find? x =
      (frame'.cells x).map
        ({ s with cells := s.cells.setIfInBounds c.index value } : Store).cellAt := by
  have here := real.frames e frame known
  have names := h.environmentAt_define e e' name value here.inBounds
  have cells := fun c' => s.cellAt_set c c' value (here.bounded name c found)
  by_cases target : e = e' ∧ name = x
  · obtain ⟨rfl, rfl⟩ := target
    obtain rfl := Option.some.inj (known.symm.trans known')
    rw [names, if_pos rfl, Table.find?_insert_self, found, Option.map_some, cells, if_pos rfl]
  · -- No other name of any environment lies in this cell.
    have elsewhere : ∀ c', frame'.cells x = some c' → c ≠ c' := by
      rintro _ found' rfl
      exact target (sound.separate e e' frame frame' name x c known known' found found')
    have unchanged : ((h.define e name value).environmentAt e').names.find? x =
        (h.environmentAt e').names.find? x := by
      rw [names]
      split
      · next same =>
        exact Table.find?_insert_of_ne _ _ fun equal => target ⟨same, equal⟩
      · rfl
    rw [unchanged, (real.frames e' frame' known').holds x]
    cases found' : frame'.cells x with
    | none => rfl
    | some c' => rw [Option.map_some, Option.map_some, cells, if_neg (elsewhere c' found')]

/-- A name of an environment gets a new value. -/
theorem setCell {V : Visit → Prop} (sound : W.Sound V) {e : EnvironmentId} {frame : Frame}
    (known : W.frames e = some frame) {name : String} {c : CellId}
    (found : frame.cells name = some c) (ordinary : IsOrdinary name) {value : Value}
    (fits : W.Fits value) :
    W.Real (h.define e name value) { s with cells := s.cells.setIfInBounds c.index value } := by
  have here := real.frames e frame known
  have bound := here.bounded name c found
  have names := fun e' => h.environmentAt_define e e' name value here.inBounds
  have cells := fun c' => s.cellAt_set c c' value bound
  -- What `this` and `super` stand for is out of reach of an assignment.
  have keeps : ∀ e' x, x ≠ name → ((h.define e name value).environmentAt e').names.find? x =
      (h.environmentAt e').names.find? x := by
    intro e' x other
    rw [names]
    split
    · exact Table.find?_insert_of_ne _ _ other.symm
    · rfl
  refine { real with
    frames := fun e' frame' known' => ?_
    globals := by rw [Heap.size_define]; exact real.globals
    globalNames := by
      rw [names, if_neg (World.ne_globals sound.globals known)]
      exact real.globalNames
    cellsFit := fun c' => by
      rw [cells]
      split
      · exact fits
      · exact real.cellsFit c' }
  have old := real.frames e' frame' known'
  refine ⟨by rw [Heap.size_define]; exact old.inBounds, ?_,
    real.holds_setCell sound known found value known', fun x c' found' => ?_,
    fun text object method made declarer kind => ?_, fun text parent kind => ?_⟩
  · rw [names]
    split
    · exact old.enclosing
    · exact old.enclosing
  · simpa using old.bounded x c' found'
  · rw [keeps e' _ ordinary.1.symm]
    exact old.this text object method made declarer kind
  · rw [keeps e' _ ordinary.2.symm]
    exact old.super text parent kind

/-- A global gets a value. -/
theorem defineGlobal (unknown : W.frames W.globals = none) (name : String) {value : Value}
    (fits : W.Fits value) :
    W.Real (h.define W.globals name value) { s with globals := s.globals.insert name value } := by
  have names := fun e => h.environmentAt_define W.globals e name value real.globals
  refine { real with
    frames := fun e frame known => ?_
    globals := by rw [Heap.size_define]; exact real.globals
    globalNames := by rw [names, if_pos rfl, real.globalNames]
    globalsFit := fun x v found => ?_ }
  · have old : frame.Real h { s with globals := s.globals.insert name value } e :=
      (real.frames e frame known).congr rfl rfl
    exact old.define_other real.globals (World.ne_globals unknown known).symm name value
  · rw [Table.find?_insert] at found
    split at found
    · exact Option.some.inj found ▸ fits
    · exact real.globalsFit x v found

/-- An environment that is not there yet. -/
theorem unknown_environment (env : Environment) : W.frames (h.newEnvironment env).1 = none := by
  cases known : W.frames (h.newEnvironment env).1 with
  | none => rfl
  | some frame => exact absurd (real.frames _ frame known).inBounds (Nat.lt_irrefl _)

/-- A new environment, which holds the values of its cells. -/
theorem addFrame {env : Environment} {frame : Frame}
    (enclosing : env.enclosing = some frame.outer)
    (holds : ∀ x, env.names.find? x = (frame.cells x).map s.cellAt)
    (bounded : ∀ x c, frame.cells x = some c → c.index < s.cells.size)
    (this : ∀ text object method made declarer, frame.kind = .this text object method made declarer →
      env.names.find? "this" = some (.instance object))
    (super : ∀ text parent, frame.kind = .super text parent →
      env.names.find? "super" = some (.class parent)) :
    (W.addFrame (h.newEnvironment env).1 frame).Real (h.newEnvironment env).2 s := by
  have unknown := real.unknown_environment env
  have later := World.Extends.addFrame unknown frame
  -- Handles are given out in order, so what was in bounds stays what it was.
  have grown : ∀ e : EnvironmentId, e.index < h.environments.size →
      e.index < (h.newEnvironment env).2.environments.size ∧
        (h.newEnvironment env).2.environmentAt e = h.environmentAt e := by
    intro e inBounds
    refine ⟨by simp only [Heap.newEnvironment, Array.size_push]; omega, ?_⟩
    exact h.environmentAt_newEnvironment_old env inBounds
  refine { real with
    frames := fun e frame' known => ?_
    globals := (grown _ real.globals).1
    globalNames := (grown _ real.globals).2.trans real.globalNames
    cellsFit := fun c => later.fits (real.cellsFit c)
    globalsFit := fun x v found => later.fits (real.globalsFit x v found)
    fieldsFit := fun i x v found => later.fits (real.fieldsFit i x v found) }
  rcases update_eq_some known with ⟨rfl, rfl⟩ | ⟨-, known⟩
  · have here := (h.environmentAt_newEnvironment env (h.newEnvironment env).1).trans (if_pos rfl)
    exact ⟨by simp [Heap.newEnvironment], by rw [here]; exact enclosing, by rw [here]; exact holds,
      bounded, by rw [here]; exact this, by rw [here]; exact super⟩
  · have old := real.frames e frame' known
    obtain ⟨inBounds, same⟩ := grown e old.inBounds
    exact ⟨inBounds, by rw [same]; exact old.enclosing, by rw [same]; exact old.holds, old.bounded,
      by rw [same]; exact old.this, by rw [same]; exact old.super⟩

theorem unknown_function (closure : Closure) : W.functions (h.newFunction closure).1 = none := by
  cases known : W.functions (h.newFunction closure).1 with
  | none => rfl
  | some code => exact absurd (real.functions _ code known).1 (Nat.lt_irrefl _)

theorem addFunction (code : Code) (sizes : s.functions.size = h.functions.size) :
    (W.addFunction (h.newFunction code.closure).1 code).Real (h.newFunction code.closure).2
      { s with
        functions := s.functions.push
          ⟨code.closure.declaration, code.names, code.closure.isInitializer⟩ } := by
  have later := World.Extends.addFunction (real.unknown_function code.closure) code
  refine { real with
    frames := fun e frame known => (real.frames e frame known).congr rfl rfl
    functions := fun f code' known => ?_
    cellsFit := fun c => later.fits (real.cellsFit c)
    globalsFit := fun x v found => later.fits (real.globalsFit x v found)
    fieldsFit := fun i x v found => later.fits (real.fieldsFit i x v found) }
  rw [Heap.functionAt_newFunction, Store.functionAt_push, sizes]
  rcases update_eq_some known with ⟨rfl, rfl⟩ | ⟨other, known⟩
  · exact ⟨by simp [Heap.newFunction], if_pos rfl, if_pos rfl⟩
  · obtain ⟨inBounds, here, there⟩ := real.functions f code' known
    exact ⟨by simp only [Heap.newFunction, Array.size_push]; omega, (if_neg other).trans here,
      (if_neg other).trans there⟩

theorem unknown_class (made : Class) : W.classes (h.newClass made).1 = none := by
  cases known : W.classes (h.newClass made).1 with
  | none => rfl
  | some fact => exact absurd (real.classes _ fact known).1 (Nat.lt_irrefl _)

theorem addClass {made : Class} (fact : ClassFact)
    (same : made = ⟨fact.text.name.name, fact.parent, fact.methods⟩) :
    (W.addClass (h.newClass made).1 fact).Real (h.newClass made).2
      { s with classes := s.classes.push made } := by
  have later := World.Extends.addClass (real.unknown_class made) fact
  refine { real with
    frames := fun e frame known => (real.frames e frame known).congr rfl rfl
    classes := fun c fact' known => ?_
    cellsFit := fun c => later.fits (real.cellsFit c)
    globalsFit := fun x v found => later.fits (real.globalsFit x v found)
    fieldsFit := fun i x v found => later.fits (real.fieldsFit i x v found) }
  rw [Heap.classAt_newClass]
  rcases update_eq_some known with ⟨rfl, rfl⟩ | ⟨other, known⟩
  · exact ⟨by simp [Heap.newClass], (if_pos rfl).trans same⟩
  · obtain ⟨inBounds, here⟩ := real.classes c fact' known
    exact ⟨by simp only [Heap.newClass, Array.size_push]; omega, (if_neg other).trans here⟩

theorem unknown_instance (c : ClassId) : W.instances (h.newInstance c).1 = none := by
  cases known : W.instances (h.newInstance c).1 with
  | none => rfl
  | some c' => exact absurd (real.instances _ c' known).1 (Nat.lt_irrefl _)

theorem addInstance (c : ClassId) :
    (W.addInstance (h.newInstance c).1 c).Real (h.newInstance c).2
      { s with instances := s.instances.push ⟨c, .empty⟩ } := by
  have later := World.Extends.addInstance (real.unknown_instance c) c
  refine { real with
    frames := fun e frame known => (real.frames e frame known).congr rfl rfl
    instances := fun i c' known => ?_
    cellsFit := fun c => later.fits (real.cellsFit c)
    globalsFit := fun x v found => later.fits (real.globalsFit x v found)
    fieldsFit := fun i x v found => ?_ }
  · rw [Heap.instanceAt_newInstance]
    rcases update_eq_some known with ⟨rfl, rfl⟩ | ⟨other, known⟩
    · exact ⟨by simp [Heap.newInstance], by rw [if_pos rfl]⟩
    · obtain ⟨inBounds, here⟩ := real.instances i c' known
      exact ⟨by simp only [Heap.newInstance, Array.size_push]; omega, by rw [if_neg other]; exact here⟩
  · rw [Heap.instanceAt_newInstance] at found
    split at found
    · cases found
    · exact later.fits (real.fieldsFit i x v found)

theorem setField {i : InstanceId} {c : ClassId} (known : W.instances i = some c) {name : String}
    {value : Value} (fits : W.Fits value) :
    W.Real (h.setField i name value)
      { s with instances := s.instances.modify i.index fun object =>
          { object with fields := object.fields.insert name value } } := by
  obtain ⟨inBounds, -⟩ := real.instances i c known
  have objects := fun i' => h.instanceAt_setField i i' name value inBounds
  refine { real with
    frames := fun e frame known => (real.frames e frame known).congr rfl rfl
    instances := fun i' c' known' => ?_
    fieldsFit := fun i' x v found => ?_ }
  · obtain ⟨inBounds', here⟩ := real.instances i' c' known'
    refine ⟨by simpa [Heap.setField] using inBounds', ?_⟩
    rw [objects]
    split
    · exact here
    · exact here
  · rw [objects] at found
    split at found
    · rw [Table.find?_insert] at found
      split at found
      · exact Option.some.inj found ▸ fits
      · exact real.fieldsFit i' x v found
    · exact real.fieldsFit i' x v found

theorem addMoment (m : Moment) : (W.addMoment m).Real h s := by
  have later := World.Extends.addMoment (W := W) m
  exact { real with
    cellsFit := fun c => later.fits (real.cellsFit c)
    globalsFit := fun x v found => later.fits (real.globalsFit x v found)
    fieldsFit := fun i x v found => later.fits (real.fieldsFit i x v found) }

end World.Real

/-- One more moment, which is right about what it looks up. -/
theorem World.Sound.addMoment {V : Visit → Prop} {W : World} (sound : W.Sound V) {m : Moment}
    (good : m.Good V W.moments) : (W.addMoment m).Sound V :=
  sound.extend (.addMoment m) sound.globals sound.separate (fun _ _ known => .inl known)
    (fun _ _ known => .inl known) (fun _ _ known => .inl known) (fun _ _ known => .inl known)
    ⟨good, sound.chronicled⟩

end Lox
