import Lox.Proofs.Desugaring.Ladders
import Lox.Proofs.Evaluation.Access
import Lox.Proofs.Evaluation.Operators
import Lox.Proofs.Heap.Frames

/-!
# Bridges between heaps

Two runs that start on one heap make the same objects in the same order, but one may make empty
environments that the other does not make. A bridge records which environments correspond. Bridged
heaps answer alike from environments that a ladder links.
-/

namespace Lox

/-! ## Bridges -/

/-- What corresponds in the heaps of two runs. A prime marks what is said of the second heap. -/
structure Bridge where
  /-- The number of environments in the heap from which both runs started. -/
  old : Nat
  /-- The number of functions in it. -/
  oldFunctions : Nat
  globals : EnvironmentId
  /-- The environments correspond. -/
  pair : EnvironmentId → EnvironmentId → Prop
  /-- The environments correspond, and the name is known to be in them. -/
  defined : EnvironmentId → EnvironmentId → String → Prop
  /-- The environment is empty, and the other heap has none for it. -/
  bare : EnvironmentId → Prop
  bare' : EnvironmentId → Prop
  /-- The second environment encloses the first. -/
  parent : EnvironmentId → EnvironmentId → Prop
  parent' : EnvironmentId → EnvironmentId → Prop
  /-- The function may be among the values of a program. -/
  callable : FunctionId → Prop
  /-- The function is a method that no instance is bound to. -/
  method : FunctionId → Prop

namespace Bridge

structure Grows (W W' : Bridge) : Prop where
  old : W'.old = W.old
  oldFunctions : W'.oldFunctions = W.oldFunctions
  globals : W'.globals = W.globals
  pair : ∀ e e', W.pair e e' → W'.pair e e'
  defined : ∀ e e' name, W.defined e e' name → W'.defined e e' name
  bare : ∀ e, W.bare e → W'.bare e
  bare' : ∀ e, W.bare' e → W'.bare' e
  parent : ∀ e o, W.parent e o → W'.parent e o
  parent' : ∀ e o, W.parent' e o → W'.parent' e o
  callable : ∀ f, W.callable f → W'.callable f
  method : ∀ f, W.method f → W'.method f

/-- The chains from two environments compare by the ladder. -/
inductive Linked (W : Bridge) : Ladder → EnvironmentId → EnvironmentId → Prop where
  | outside {e : EnvironmentId} : e.index < W.old → Linked W [] e e
  | common {l : Ladder} {e e' o o' : EnvironmentId} : W.pair e e' → W.parent e o → W.parent' e' o' →
      Linked W l o o' → Linked W (.common :: l) e e'
  | left {l : Ladder} {e e' o : EnvironmentId} : W.bare e → W.parent e o → Linked W l o e' →
      Linked W (.left :: l) e e'
  | right {l : Ladder} {e e' o' : EnvironmentId} : W.bare' e' → W.parent' e' o' → Linked W l e o' →
      Linked W (.right :: l) e e'

/-- The value means the same in both heaps. -/
def Fits (W : Bridge) : Value → Prop
  | .function f => W.callable f
  | _ => True

/-- Both runs have the value. -/
structure Both (W : Bridge) (v v' : Value) : Prop where
  same : v' = v
  fits : W.Fits v

/-- All values in the table mean the same in both heaps. -/
def TableFits (W : Bridge) (t : Table Value) : Prop := ∀ name v, t.find? name = some v → W.Fits v

variable {W W' W'' : Bridge}

theorem Grows.refl (W : Bridge) : W.Grows W :=
  ⟨rfl, rfl, rfl, fun _ _ => id, fun _ _ _ => id, fun _ => id, fun _ => id, fun _ _ => id,
    fun _ _ => id, fun _ => id, fun _ => id⟩

theorem Grows.trans (first : W.Grows W') (second : W'.Grows W'') : W.Grows W'' where
  old := second.old.trans first.old
  oldFunctions := second.oldFunctions.trans first.oldFunctions
  globals := second.globals.trans first.globals
  pair e e' here := second.pair e e' (first.pair e e' here)
  defined e e' name here := second.defined e e' name (first.defined e e' name here)
  bare e here := second.bare e (first.bare e here)
  bare' e here := second.bare' e (first.bare' e here)
  parent e o here := second.parent e o (first.parent e o here)
  parent' e o here := second.parent' e o (first.parent' e o here)
  callable f here := second.callable f (first.callable f here)
  method f here := second.method f (first.method f here)

theorem Linked.mono (grows : W.Grows W') {l : Ladder} {e e' : EnvironmentId}
    (linked : W.Linked l e e') : W'.Linked l e e' := by
  induction linked with
  | outside old => exact .outside (grows.old ▸ old)
  | common pair parent parent' _ inductionHypothesis =>
    exact .common (grows.pair _ _ pair) (grows.parent _ _ parent) (grows.parent' _ _ parent')
      inductionHypothesis
  | left bare parent _ inductionHypothesis =>
    exact .left (grows.bare _ bare) (grows.parent _ _ parent) inductionHypothesis
  | right bare' parent' _ inductionHypothesis =>
    exact .right (grows.bare' _ bare') (grows.parent' _ _ parent') inductionHypothesis

theorem Fits.of_scalar {v : Value} (scalar : v.IsScalar) : W.Fits v := by
  cases v with
  | function f => exact scalar.elim
  | _ => trivial

theorem Fits.mono (grows : W.Grows W') {v : Value} (fits : W.Fits v) : W'.Fits v := by
  cases v with
  | function f => exact grows.callable f fits
  | _ => trivial

theorem Both.mono (grows : W.Grows W') {v v' : Value} (both : W.Both v v') : W'.Both v v' :=
  ⟨both.same, both.fits.mono grows⟩

theorem TableFits.mono (grows : W.Grows W') {t : Table Value} (fits : W.TableFits t) :
    W'.TableFits t :=
  fun name v found => (fits name v found).mono grows

theorem TableFits.empty : W.TableFits .empty := Table.Each.empty

theorem TableFits.insert {t : Table Value} (fits : W.TableFits t) (name : String) {v : Value}
    (new : W.Fits v) : W.TableFits (t.insert name v) :=
  Table.Each.insert fits name new

/-- The same bridge, seen from the other heap. -/
def swap (W : Bridge) : Bridge :=
  { W with
    pair := fun e' e => W.pair e e'
    defined := fun e' e => W.defined e e'
    bare := W.bare'
    bare' := W.bare
    parent := W.parent'
    parent' := W.parent }

end Bridge

/-! ## Environments -/

/-- The environments of two heaps are as the bridge has it. -/
structure Bridge.Spans (W : Bridge) (h h' : Heap) : Prop where
  names : ∀ e e', W.pair e e' → (h'.environmentAt e').names = (h.environmentAt e).names
  fits : ∀ e e', W.pair e e' → W.TableFits (h.environmentAt e).names
  inside : ∀ e e', W.pair e e' → e.index < h.environments.size
  inside' : ∀ e e', W.pair e e' → e'.index < h'.environments.size
  unique : ∀ e₁ e₁' e₂ e₂', W.pair e₁ e₁' → W.pair e₂ e₂' → (e₁ = e₂ ↔ e₁' = e₂')
  defined : ∀ e e' name, W.defined e e' name →
    W.pair e e' ∧ (h.environmentAt e).names.contains name = true
  bare : ∀ e, W.bare e → e.index < h.environments.size ∧ ∀ e', ¬W.pair e e'
  bare' : ∀ e', W.bare' e' → e'.index < h'.environments.size ∧ ∀ e, ¬W.pair e e'
  parent : ∀ e o, W.parent e o →
    e.index < h.environments.size ∧ (h.environmentAt e).enclosing = some o
  parent' : ∀ e' o', W.parent' e' o' →
    e'.index < h'.environments.size ∧ (h'.environmentAt e').enclosing = some o'
  old : ∀ e : EnvironmentId, e.index < W.old → W.pair e e
  enclosing : ∀ e : EnvironmentId, e.index < W.old →
    (h'.environmentAt e).enclosing = (h.environmentAt e).enclosing ∧
      ∀ o ∈ (h.environmentAt e).enclosing, o.index < W.old
  globals : W.globals.index < W.old ∧ (h.environmentAt W.globals).enclosing = none

/-- Faults that differ in the distances only. -/
inductive InternalFault.SameKind : InternalFault → InternalFault → Prop where
  | noEnvironment (distance distance' : Int) :
      SameKind (.noEnvironment distance) (.noEnvironment distance')
  | unresolvedBinding (name : String) (distance distance' : Int) :
      SameKind (.unresolvedBinding name distance) (.unresolvedBinding name distance')
  | malformedSuper : SameKind .malformedSuper .malformedSuper

/-- The same fault at the same token, which may have another number. -/
structure RuntimeError.Alike (e e' : RuntimeError) : Prop where
  fault : e'.fault = e.fault
  token : e'.token = e.token

theorem RuntimeError.Alike.refl (e : RuntimeError) : e.Alike e := ⟨rfl, rfl⟩

/-- Related results, or faults that are alike. -/
inductive Answers {ε α α' : Type} (alike : ε → ε → Prop) (related : α → α' → Prop) :
    Except ε α → Except ε α' → Prop where
  | ok {a : α} {a' : α'} : related a a' → Answers alike related (.ok a) (.ok a')
  | error {fault fault' : ε} : alike fault fault' →
      Answers alike related (.error fault) (.error fault')

theorem Answers.refl {ε α : Type} {alike : ε → ε → Prop} (same : ∀ fault, alike fault fault)
    (result : Except ε α) : Answers alike (fun a a' => a = a' ∧ result = .ok a) result result := by
  cases result with
  | ok => exact .ok ⟨rfl, rfl⟩
  | error fault => exact .error (same fault)

namespace Bridge.Spans

variable {W : Bridge} {h h' : Heap} (spans : W.Spans h h')
include spans

/-! ### Reading -/

theorem ancestor_old (d : Nat) {e : EnvironmentId} (old : e.index < W.old) :
    Option.Rel W.pair (h.ancestor? e d) (h'.ancestor? e d) := by
  induction d generalizing e with
  | zero => exact .some (spans.old e old)
  | succ d inductionHypothesis =>
    obtain ⟨same, around⟩ := spans.enclosing e old
    rw [Heap.ancestor?, Heap.ancestor?, same]
    cases enclosing : (h.environmentAt e).enclosing with
    | none => exact .none
    | some o => exact inductionHypothesis (around o enclosing)

theorem ancestor_parent {e o : EnvironmentId} (parent : W.parent e o) (d : Nat) :
    h.ancestor? e (d + 1) = h.ancestor? o d := by
  rw [Heap.ancestor?, (spans.parent e o parent).2]

theorem ancestor_parent' {e' o' : EnvironmentId} (parent' : W.parent' e' o') (d : Nat) :
    h'.ancestor? e' (d + 1) = h'.ancestor? o' d := by
  rw [Heap.ancestor?, (spans.parent' e' o' parent').2]

/-- Distances that are aligned lead to environments that correspond. -/
theorem ancestor {l : Ladder} {e e' : EnvironmentId} (linked : W.Linked l e e') {d d' : Nat}
    (aligned : l.Aligned d d') : Option.Rel W.pair (h.ancestor? e d) (h'.ancestor? e' d') := by
  induction linked generalizing d d' with
  | outside old =>
    cases aligned with
    | outside => exact spans.ancestor_old d old
  | common pair parent parent' _ inductionHypothesis =>
    cases aligned with
    | here => exact .some pair
    | common aligned =>
      rw [spans.ancestor_parent parent, spans.ancestor_parent' parent']
      exact inductionHypothesis aligned
  | left _ parent _ inductionHypothesis =>
    cases aligned with
    | left aligned =>
      rw [spans.ancestor_parent parent]
      exact inductionHypothesis aligned
  | right _ parent' _ inductionHypothesis =>
    cases aligned with
    | right aligned =>
      rw [spans.ancestor_parent' parent']
      exact inductionHypothesis aligned

theorem holderAt {l : Ladder} {e e' : EnvironmentId} (linked : W.Linked l e e') {d d' : Int}
    (aligned : l.Aligned d.toNat d'.toNat) (name : String) :
    Answers InternalFault.SameKind W.pair (h.holderAt e d name) (h'.holderAt e' d' name) := by
  have ancestors := spans.ancestor linked aligned
  rw [Heap.holderAt, Heap.holderAt, Heap.ancestor, Heap.ancestor]
  generalize h.ancestor? e d.toNat = found, h'.ancestor? e' d'.toNat = found' at ancestors
  cases ancestors with
  | none => exact .error (.noEnvironment d d')
  | @some o o' pair =>
    simp only [Bind.bind, Except.bind, spans.names o o' pair]
    split
    · exact .ok pair
    · exact .error (.unresolvedBinding name d d')

theorem valueIn {e e' : EnvironmentId} (pair : W.pair e e') (name : String) :
    W.Both (h.valueIn e name) (h'.valueIn e' name) := by
  constructor
  · rw [Heap.valueIn, Heap.valueIn, spans.names e e' pair]
  · rw [Heap.valueIn]
    cases found : (h.environmentAt e).names.find? name with
    | none => trivial
    | some v => exact spans.fits e e' pair name v found

theorem lookUpAt {l : Ladder} {e e' : EnvironmentId} (linked : W.Linked l e e') {d d' : Int}
    (aligned : l.Aligned d.toNat d'.toNat) (name : String) :
    Answers InternalFault.SameKind W.Both (h.lookUpAt e d name) (h'.lookUpAt e' d' name) := by
  have holders := spans.holderAt linked aligned name
  rw [Heap.lookUpAt, Heap.lookUpAt]
  generalize h.holderAt e d name = found, h'.holderAt e' d' name = found' at holders
  cases holders with
  | error kind => exact .error kind
  | ok pair => exact .ok (spans.valueIn pair name)

theorem globals_pair : W.pair W.globals W.globals := spans.old _ spans.globals.1

/-- The holder of a global is the same on both sides, whatever the number of the mention. -/
theorem globals_holder (mention : Occurrence) (r : Nat → Nat) :
    Answers RuntimeError.Alike (fun o o' => o = W.globals ∧ o' = W.globals)
      (h.holder W.globals mention) (h'.holder W.globals (mention.renumber r)) := by
  have pair := spans.globals_pair
  have outermost := spans.globals.2
  have outermost' := (spans.enclosing W.globals spans.globals.1).1.trans outermost
  rw [Heap.holder_outermost (spans.inside _ _ pair) outermost,
    Heap.holder_outermost (spans.inside' _ _ pair) outermost', spans.names _ _ pair,
    Occurrence.name_renumber]
  split
  · exact .ok ⟨rfl, rfl⟩
  · exact .error ⟨rfl, rfl⟩

theorem globals_lookUp (mention : Occurrence) (r : Nat → Nat) :
    Answers RuntimeError.Alike W.Both (h.lookUp W.globals mention)
      (h'.lookUp W.globals (mention.renumber r)) := by
  have holders := spans.globals_holder mention r
  rw [Heap.lookUp, Heap.lookUp]
  generalize h.holder W.globals mention = found,
    h'.holder W.globals (mention.renumber r) = found' at holders
  cases holders with
  | error alike => exact .error alike
  | ok same =>
    obtain ⟨rfl, rfl⟩ := same
    exact .ok (spans.valueIn spans.globals_pair mention.name)

/-- A name is held by the innermost environments if these have it. -/
theorem holder_defined {e e' : EnvironmentId} {mention : Occurrence}
    (known : W.defined e e' mention.name) :
    h.holder e mention = .ok e ∧ h'.holder e' mention = .ok e' := by
  obtain ⟨pair, here⟩ := spans.defined e e' mention.name known
  exact ⟨Heap.holder_here (spans.inside e e' pair) here,
    Heap.holder_here (spans.inside' e e' pair) (by rwa [spans.names e e' pair])⟩

/-- The innermost environments of an open ladder correspond. -/
theorem pair_of_open {l : Ladder} {e e' : EnvironmentId} (linked : W.Linked l e e')
    (isOpen : l.Open) : W.pair e e' := by
  cases linked with
  | outside old => exact spans.old e old
  | common pair => exact pair
  | left | right => cases isOpen

theorem swap : W.swap.Spans h' h where
  names e' e pair := (spans.names e e' pair).symm
  fits e' e pair := by
    rw [spans.names e e' pair]
    exact spans.fits e e' pair
  inside e' e pair := spans.inside' e e' pair
  inside' e' e pair := spans.inside e e' pair
  unique _ _ _ _ pair pair' := (spans.unique _ _ _ _ pair pair').symm
  defined e' e name here := by
    obtain ⟨pair, contains⟩ := spans.defined e e' name here
    exact ⟨pair, by rwa [spans.names e e' pair]⟩
  bare := spans.bare'
  bare' := spans.bare
  parent := spans.parent'
  parent' := spans.parent
  old e old := spans.old e old
  enclosing e old := by
    obtain ⟨same, around⟩ := spans.enclosing e old
    exact ⟨same.symm, by rwa [same]⟩
  globals := ⟨spans.globals.1, (spans.enclosing _ spans.globals.1).1.trans spans.globals.2⟩

/-! ### Writing -/

theorem define {o o' : EnvironmentId} (pair : W.pair o o') (name : String) {v : Value}
    (new : W.Fits v) : W.Spans (h.define o name v) (h'.define o' name v) := by
  have here := fun e => h.environmentAt_define o e name v (spans.inside o o' pair)
  have here' := fun e => h'.environmentAt_define o' e name v (spans.inside' o o' pair)
  have enclosing := fun e => h.enclosing_define o e name v
  have enclosing' := fun e => h'.enclosing_define o' e name v
  exact {
    names := fun e e' paired => by
      -- Pairs are one to one: where one side is written to, so is the other.
      rw [here, here']
      by_cases same : o = e
      · rw [if_pos same, if_pos ((spans.unique _ _ _ _ pair paired).1 same)]
        exact congrArg (·.insert name v) (spans.names e e' paired)
      · rw [if_neg same, if_neg (mt (spans.unique _ _ _ _ pair paired).2 same)]
        exact spans.names e e' paired
    fits := fun e e' paired => by
      rw [here]
      split
      · exact (spans.fits e e' paired).insert name new
      · exact spans.fits e e' paired
    inside := fun e e' paired => by
      rw [Heap.size_define]
      exact spans.inside e e' paired
    inside' := fun e e' paired => by
      rw [Heap.size_define]
      exact spans.inside' e e' paired
    unique := spans.unique
    defined := fun e e' other known => by
      obtain ⟨paired, contains⟩ := spans.defined e e' other known
      refine ⟨paired, ?_⟩
      rw [here]
      split
      · simp [Table.contains_insert, contains]
      · exact contains
    bare := fun e bare => by
      rw [Heap.size_define]
      exact spans.bare e bare
    bare' := fun e bare => by
      rw [Heap.size_define]
      exact spans.bare' e bare
    parent := fun e o parent => by
      rw [Heap.size_define, enclosing]
      exact spans.parent e o parent
    parent' := fun e o parent => by
      rw [Heap.size_define, enclosing']
      exact spans.parent' e o parent
    old := spans.old
    enclosing := fun e old => by
      rw [enclosing, enclosing']
      exact spans.enclosing e old
    globals := ⟨spans.globals.1, (enclosing _).trans spans.globals.2⟩ }

end Bridge.Spans

/-- The environments are known to have the name. -/
def Bridge.addName (W : Bridge) (e e' : EnvironmentId) (name : String) : Bridge :=
  { W with defined := fun x x' y => W.defined x x' y ∨ x = e ∧ x' = e' ∧ y = name }

theorem Bridge.grows_addName (W : Bridge) (e e' : EnvironmentId) (name : String) :
    W.Grows (W.addName e e' name) :=
  { Grows.refl W with defined := fun _ _ _ => .inl }

theorem Bridge.Spans.addName {W : Bridge} {h h' : Heap} (spans : W.Spans h h')
    {e e' : EnvironmentId} (pair : W.pair e e') {name : String}
    (here : (h.environmentAt e).names.contains name = true) : (W.addName e e' name).Spans h h' :=
  { spans with
    defined := by
      rintro x x' y (known | ⟨rfl, rfl, rfl⟩)
      · exact spans.defined x x' y known
      · exact ⟨pair, here⟩ }

/-! ### New environments -/

/-- The environments of the first heap are in the second as they were. -/
structure Heap.Keeps (h k : Heap) : Prop where
  count : h.environments.size ≤ k.environments.size
  same : ∀ e : EnvironmentId, e.index < h.environments.size → k.environmentAt e = h.environmentAt e

theorem Heap.Keeps.refl (h : Heap) : h.Keeps h := ⟨Nat.le_refl _, fun _ _ => rfl⟩

theorem Heap.keeps_newEnvironment (h : Heap) (env : Environment) :
    h.Keeps (h.newEnvironment env).2 := by
  refine ⟨?_, fun e inside => ?_⟩
  · simp only [newEnvironment, Array.size_push]
    omega
  · exact h.environmentAt_newEnvironment_old env inside

theorem Heap.environmentAt_new (h : Heap) (env : Environment) :
    (h.newEnvironment env).2.environmentAt (h.newEnvironment env).1 = env := by
  rw [environmentAt_newEnvironment, if_pos rfl]

theorem Heap.index_new (h : Heap) (env : Environment) :
    (h.newEnvironment env).1.index < (h.newEnvironment env).2.environments.size := by
  simp [newEnvironment]

namespace Bridge

/-- Corresponding environments that are new. -/
def addPair (W : Bridge) (e o e' o' : EnvironmentId) : Bridge :=
  { W with
    pair := fun x x' => W.pair x x' ∨ x = e ∧ x' = e'
    parent := fun x y => W.parent x y ∨ x = e ∧ y = o
    parent' := fun x y => W.parent' x y ∨ x = e' ∧ y = o' }

/-- An empty environment that is new in the first heap. -/
def addBare (W : Bridge) (e o : EnvironmentId) : Bridge :=
  { W with
    bare := fun x => W.bare x ∨ x = e
    parent := fun x y => W.parent x y ∨ x = e ∧ y = o }

variable {W : Bridge} {h h' k k' : Heap}

theorem grows_addPair (e o e' o' : EnvironmentId) : W.Grows (W.addPair e o e' o') :=
  { Grows.refl W with
    pair := fun _ _ => .inl
    parent := fun _ _ => .inl
    parent' := fun _ _ => .inl }

theorem grows_addBare (e o : EnvironmentId) : W.Grows (W.addBare e o) :=
  { Grows.refl W with
    bare := fun _ => .inl
    parent := fun _ _ => .inl }

namespace Spans

/-- New environments change nothing about the ones that there are. -/
theorem keep (spans : W.Spans h h') (keeps : h.Keeps k) (keeps' : h'.Keeps k') : W.Spans k k' := by
  have inside := fun e (old : e.index < W.old) => spans.inside e e (spans.old e old)
  have inside' := fun e (old : e.index < W.old) => spans.inside' e e (spans.old e old)
  -- All that is told of lies in bounds on its side, and there nothing has changed.
  exact {
    names := fun e e' pair => by
      rw [keeps.same e (spans.inside e e' pair), keeps'.same e' (spans.inside' e e' pair)]
      exact spans.names e e' pair
    fits := fun e e' pair => by
      rw [keeps.same e (spans.inside e e' pair)]
      exact spans.fits e e' pair
    inside := fun e e' pair => Nat.lt_of_lt_of_le (spans.inside e e' pair) keeps.count
    inside' := fun e e' pair => Nat.lt_of_lt_of_le (spans.inside' e e' pair) keeps'.count
    unique := spans.unique
    defined := fun e e' name here => by
      obtain ⟨pair, contains⟩ := spans.defined e e' name here
      exact ⟨pair, by rwa [keeps.same e (spans.inside e e' pair)]⟩
    bare := fun e bare => (spans.bare e bare).imp_left (Nat.lt_of_lt_of_le · keeps.count)
    bare' := fun e bare => (spans.bare' e bare).imp_left (Nat.lt_of_lt_of_le · keeps'.count)
    parent := fun e o parent => by
      obtain ⟨here, enclosing⟩ := spans.parent e o parent
      exact ⟨Nat.lt_of_lt_of_le here keeps.count, by rwa [keeps.same e here]⟩
    parent' := fun e o parent => by
      obtain ⟨here, enclosing⟩ := spans.parent' e o parent
      exact ⟨Nat.lt_of_lt_of_le here keeps'.count, by rwa [keeps'.same e here]⟩
    old := spans.old
    enclosing := fun e old => by
      rw [keeps.same e (inside e old), keeps'.same e (inside' e old)]
      exact spans.enclosing e old
    globals := by
      refine ⟨spans.globals.1, ?_⟩
      rw [keeps.same _ (inside _ spans.globals.1)]
      exact spans.globals.2 }

/-- The new environment of the first heap is not in the bridge yet. -/
theorem fresh (spans : W.Spans h h') (env : Environment) :
    (∀ e', ¬W.pair (h.newEnvironment env).1 e') ∧ ¬W.bare (h.newEnvironment env).1 :=
  ⟨fun e' pair => Nat.lt_irrefl _ (spans.inside _ e' pair),
    fun bare => Nat.lt_irrefl _ (spans.bare _ bare).1⟩

theorem newPair (spans : W.Spans h h') {names : Table Value} (fits : W.TableFits names)
    (o o' : EnvironmentId) :
    (W.addPair (h.newEnvironment ⟨names, some o⟩).1 o (h'.newEnvironment ⟨names, some o'⟩).1 o').Spans
      (h.newEnvironment ⟨names, some o⟩).2 (h'.newEnvironment ⟨names, some o'⟩).2 := by
  obtain ⟨free, notBare⟩ := spans.fresh ⟨names, some o⟩
  obtain ⟨free', notBare'⟩ := spans.swap.fresh ⟨names, some o'⟩
  have kept := spans.keep (h.keeps_newEnvironment ⟨names, some o⟩)
    (h'.keeps_newEnvironment ⟨names, some o'⟩)
  have made := h.environmentAt_new ⟨names, some o⟩
  have made' := h'.environmentAt_new ⟨names, some o'⟩
  have here := h.index_new ⟨names, some o⟩
  have here' := h'.index_new ⟨names, some o'⟩
  generalize (h.newEnvironment ⟨names, some o⟩).1 = e,
    (h'.newEnvironment ⟨names, some o'⟩).1 = e',
    (h.newEnvironment ⟨names, some o⟩).2 = k,
    (h'.newEnvironment ⟨names, some o'⟩).2 = k' at *
  have grows := W.grows_addPair e o e' o'
  exact { kept with
    names := by
      rintro x x' (pair | ⟨rfl, rfl⟩)
      · exact kept.names x x' pair
      · rw [made, made']
    fits := by
      rintro x x' (pair | ⟨rfl, rfl⟩)
      · exact (kept.fits x x' pair).mono grows
      · rw [made]
        exact fits.mono grows
    inside := by
      rintro x x' (pair | ⟨rfl, rfl⟩)
      · exact kept.inside x x' pair
      · exact here
    inside' := by
      rintro x x' (pair | ⟨rfl, rfl⟩)
      · exact kept.inside' x x' pair
      · exact here'
    unique := by
      -- No pair that was there has one of the new environments on either side.
      rintro x x' y y' (pair | ⟨rfl, rfl⟩) (pair' | ⟨rfl, rfl⟩)
      · exact kept.unique x x' y y' pair pair'
      · exact iff_of_false (fun same => free _ (same ▸ pair)) fun same => free' _ (same ▸ pair)
      · exact iff_of_false (fun same => free _ (same ▸ pair')) fun same => free' _ (same ▸ pair')
      · exact iff_of_true rfl rfl
    defined := fun x x' name here => (kept.defined x x' name here).imp_left .inl
    bare := fun x bare => by
      obtain ⟨inside, alone⟩ := kept.bare x bare
      refine ⟨inside, ?_⟩
      rintro x' (pair | ⟨rfl, -⟩)
      · exact alone x' pair
      · exact notBare bare
    bare' := fun x' bare => by
      obtain ⟨inside, alone⟩ := kept.bare' x' bare
      refine ⟨inside, ?_⟩
      rintro x (pair | ⟨-, rfl⟩)
      · exact alone x pair
      · exact notBare' bare
    parent := by
      rintro x y (parent | ⟨rfl, rfl⟩)
      · exact kept.parent x y parent
      · exact ⟨here, by rw [made]⟩
    parent' := by
      rintro x y (parent | ⟨rfl, rfl⟩)
      · exact kept.parent' x y parent
      · exact ⟨here', by rw [made']⟩
    old := fun x old => .inl (kept.old x old) }

theorem newBare (spans : W.Spans h h') (o : EnvironmentId) :
    (W.addBare (h.newEnvironment ⟨.empty, some o⟩).1 o).Spans
      (h.newEnvironment ⟨.empty, some o⟩).2 h' := by
  obtain ⟨free, -⟩ := spans.fresh ⟨.empty, some o⟩
  have kept := spans.keep (h.keeps_newEnvironment ⟨.empty, some o⟩) (.refl h')
  have made := h.environmentAt_new ⟨.empty, some o⟩
  have here := h.index_new ⟨.empty, some o⟩
  generalize (h.newEnvironment ⟨.empty, some o⟩).1 = e,
    (h.newEnvironment ⟨.empty, some o⟩).2 = k at *
  -- The new environment has no partner: it is bare, and its parent is known.
  exact { kept with
    fits := fun x x' pair => (kept.fits x x' pair).mono (W.grows_addBare e o)
    bare := by
      rintro x (bare | rfl)
      · exact kept.bare x bare
      · exact ⟨here, free⟩
    parent := by
      rintro x y (parent | ⟨rfl, rfl⟩)
      · exact kept.parent x y parent
      · exact ⟨here, by rw [made]⟩ }

end Spans

end Bridge

end Lox
