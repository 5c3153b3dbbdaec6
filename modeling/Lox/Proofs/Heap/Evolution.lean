import Lox.Proofs.Evaluation.Operators
import Lox.Proofs.Evaluation.Stability
import Lox.Proofs.Heap.Chains
import Lox.Proofs.Heap.Frames
import Mathlib.Logic.Relation

/-!
# How a heap evolves

What comes onto a heap mentions only classes, instances and methods that are there already, so that every
class is younger than its superclass. And what is there stays: no step changes a class, a function or the
class of an instance. So a method that a lookup has found once will be found by it for good.
-/

namespace Lox

/-- The class or the instance in the value is on the heap. -/
def Value.OnHeap (h : Heap) : Value → Prop
  | .class c => c.index < h.classes.size
  | .instance i => i.index < h.instances.size
  | _ => True

theorem Value.IsScalar.onHeap {h : Heap} {v : Value} (scalar : v.IsScalar) : v.OnHeap h := by
  cases v <;> trivial

namespace Heap

/-- A step that mentions only what is there. -/
inductive Lawful (h : Heap) : Heap → Prop where
  | newEnvironment (env : Environment) :
      env.names.Each (·.OnHeap h) → h.Lawful (h.newEnvironment env).2
  | newFunction (closure : Closure) : h.Lawful (h.newFunction closure).2
  | newClass (made : Class) :
      (∀ parent ∈ made.superclass, parent.index < h.classes.size) →
      made.methods.Each (·.index < h.functions.size) → h.Lawful (h.newClass made).2
  | newInstance (c : ClassId) : c.index < h.classes.size → h.Lawful (h.newInstance c).2
  | define (e : EnvironmentId) (name : String) {value : Value} :
      value.OnHeap h → h.Lawful (h.define e name value)
  | setField (i : InstanceId) (name : String) {value : Value} :
      value.OnHeap h → h.Lawful (h.setField i name value)

/-- The second heap is the first one after any number of lawful steps. -/
def Evolves : Heap → Heap → Prop := Relation.ReflTransGen Lawful

/-- The objects of the first heap are on the second, and they are of the same class and code. -/
structure Preserves (h h' : Heap) : Prop where
  classCount : h.classes.size ≤ h'.classes.size
  classes : ∀ c : ClassId, c.index < h.classes.size → h'.classAt c = h.classAt c
  functionCount : h.functions.size ≤ h'.functions.size
  functions : ∀ f : FunctionId, f.index < h.functions.size → h'.functionAt f = h.functionAt f
  instanceCount : h.instances.size ≤ h'.instances.size
  instances : ∀ i : InstanceId, i.index < h.instances.size →
    (h'.instanceAt i).ofClass = (h.instanceAt i).ofClass

variable {h h' h'' : Heap}

namespace Preserves

theorem refl (h : Heap) : h.Preserves h :=
  ⟨Nat.le_refl _, fun _ _ => rfl, Nat.le_refl _, fun _ _ => rfl, Nat.le_refl _, fun _ _ => rfl⟩

theorem trans (first : h.Preserves h') (second : h'.Preserves h'') : h.Preserves h'' where
  classCount := Nat.le_trans first.classCount second.classCount
  classes c old := (second.classes c (Nat.lt_of_lt_of_le old first.classCount)).trans
    (first.classes c old)
  functionCount := Nat.le_trans first.functionCount second.functionCount
  functions f old := (second.functions f (Nat.lt_of_lt_of_le old first.functionCount)).trans
    (first.functions f old)
  instanceCount := Nat.le_trans first.instanceCount second.instanceCount
  instances i old := (second.instances i (Nat.lt_of_lt_of_le old first.instanceCount)).trans
    (first.instances i old)

theorem onHeap (kept : h.Preserves h') {v : Value} (there : v.OnHeap h) : v.OnHeap h' := by
  cases v with
  | «class» c => exact Nat.lt_of_lt_of_le there kept.classCount
  | «instance» i => exact Nat.lt_of_lt_of_le there kept.instanceCount
  | _ => trivial

end Preserves

theorem Step.preserves (step : h.Step h') : h.Preserves h' := by
  have same := Preserves.refl h
  cases step with
  | newEnvironment | define => exact { same with }
  | newFunction closure =>
    exact { same with
      functionCount := by simp [Heap.newFunction]
      functions := fun f old => h.functionAt_newFunction_old closure old }
  | newClass made =>
    exact { same with
      classCount := by simp [Heap.newClass]
      classes := fun c old => h.classAt_newClass_old made old }
  | newInstance c =>
    exact { same with
      instanceCount := by simp [Heap.newInstance]
      instances := fun i old => by rw [h.instanceAt_newInstance_old c old] }
  | setField i name value =>
    refine { same with instanceCount := by simp [Heap.setField], instances := fun j old => ?_ }
    simp only [instanceAt, Heap.setField, getD_modify]
    split <;> rfl

theorem Lawful.toStep (step : h.Lawful h') : h.Step h' := by
  cases step with
  | newEnvironment env => exact .newEnvironment env
  | newFunction closure => exact .newFunction closure
  | newClass made => exact .newClass made
  | newInstance c => exact .newInstance c
  | define e name => exact .define e name _
  | setField i name => exact .setField i name _

theorem Lawful.preserves (step : h.Lawful h') : h.Preserves h' := step.toStep.preserves

theorem Evolves.preserves (evolves : h.Evolves h') : h.Preserves h' := by
  induction evolves with
  | refl => exact .refl h
  | tail _ step inductionHypothesis => exact inductionHypothesis.trans step.preserves

/-! ## Founded heaps -/

/-- Whatever is mentioned on the heap is there, and superclasses are older than their subclasses. -/
structure Founded (h : Heap) : Prop where
  natives : ∀ n, (h.nativeAt n).body = .clock
  superclasses : h.Graded
  methods : ∀ c, (h.classAt c).methods.Each (·.index < h.functions.size)
  names : ∀ e, (h.environmentAt e).names.Each (·.OnHeap h)
  fields : ∀ i, (h.instanceAt i).fields.Each (·.OnHeap h)
  ofClass : ∀ i : InstanceId, i.index < h.instances.size →
    (h.instanceAt i).ofClass.index < h.classes.size

namespace Founded

theorem empty : Heap.empty.Founded where
  natives _ := rfl
  superclasses _ _ := nofun
  methods _ := .empty
  names _ := .empty
  fields _ := .empty
  ofClass i there := absurd there (Nat.not_lt_zero i.index)

variable (founded : h.Founded)
include founded

theorem newNative {n : Native} (clock : n.body = .clock) : (h.newNative n).2.Founded :=
  { founded with
    natives := fun other => by
      rw [nativeAt_newNative]
      split
      · exact clock
      · exact founded.natives other }

theorem newEnvironment {env : Environment} (names : env.names.Each (·.OnHeap h)) :
    (h.newEnvironment env).2.Founded :=
  { founded with
    names := fun e => by
      rw [environmentAt_newEnvironment]
      split
      · exact names
      · exact founded.names e }

theorem newFunction (closure : Closure) : (h.newFunction closure).2.Founded :=
  { founded with
    methods := fun c => (founded.methods c).mono fun f there => by
      simp only [Heap.newFunction, Array.size_push]
      exact Nat.lt_succ_of_lt there }

theorem newClass {made : Class} (parent : ∀ parent ∈ made.superclass, parent.index < h.classes.size)
    (methods : made.methods.Each (·.index < h.functions.size)) : (h.newClass made).2.Founded := by
  have kept : h.Preserves (h.newClass made).2 := (Lawful.newClass made parent methods).preserves
  refine ⟨founded.natives, ?_, ?_, fun e => (founded.names e).mono fun _ => kept.onHeap,
    fun i => (founded.fields i).mono fun _ => kept.onHeap, fun i there =>
      Nat.lt_of_lt_of_le (founded.ofClass i there) kept.classCount⟩
  -- A class is made from an older parent, so links still lead to older classes.
  · intro c above superclass
    dsimp only at superclass ⊢
    rw [classAt_newClass] at superclass
    split at superclass
    · next new =>
      rw [new]
      exact parent above superclass
    · exact founded.superclasses c above superclass
  · intro c
    rw [classAt_newClass]
    split
    · exact methods
    · exact founded.methods c

theorem newInstance {c : ClassId} (there : c.index < h.classes.size) :
    (h.newInstance c).2.Founded := by
  have kept : h.Preserves (h.newInstance c).2 := (Lawful.newInstance c there).preserves
  refine ⟨founded.natives, founded.superclasses, founded.methods, fun e =>
    (founded.names e).mono fun _ => kept.onHeap, fun i => ?_, fun i inside => ?_⟩
  · rw [instanceAt_newInstance]
    split
    · exact .empty
    · exact (founded.fields i).mono fun _ => kept.onHeap
  · rw [instanceAt_newInstance]
    split
    · exact there
    · next old =>
      refine founded.ofClass i ?_
      have other : i.index ≠ h.instances.size := fun equal => old (congrArg InstanceId.mk equal)
      simp only [Heap.newInstance, Array.size_push] at inside
      omega

theorem define (e : EnvironmentId) (name : String) {value : Value} (there : value.OnHeap h) :
    (h.define e name value).Founded :=
  { founded with
    names := fun o x v found => by
      rw [find?_define] at found
      split at found
      · split at found
        · exact Option.some.inj found ▸ there
        · exact founded.names o x v found
      · exact founded.names o x v found }

theorem setField (i : InstanceId) (name : String) {value : Value} (there : value.OnHeap h) :
    (h.setField i name value).Founded := by
  have kept : h.Preserves (h.setField i name value) := (Lawful.setField i name there).preserves
  refine ⟨founded.natives, founded.superclasses, founded.methods, fun e =>
    (founded.names e).mono fun _ => kept.onHeap, fun j x v found => kept.onHeap ?_, fun j inside => ?_⟩
  · rw [find?_setField] at found
    split at found
    · split at found
      · exact Option.some.inj found ▸ there
      · exact founded.fields j x v found
    · exact founded.fields j x v found
  · have old : j.index < h.instances.size := by simpa [Heap.setField] using inside
    rw [kept.instances j old]
    exact founded.ofClass j old

theorem step (step : h.Lawful h') : h'.Founded := by
  cases step with
  | newEnvironment env names => exact founded.newEnvironment names
  | newFunction closure => exact founded.newFunction closure
  | newClass made parent methods => exact founded.newClass parent methods
  | newInstance c there => exact founded.newInstance there
  | define e name there => exact founded.define e name there
  | setField i name there => exact founded.setField i name there

theorem evolves (evolves : h.Evolves h') : h'.Founded := by
  induction evolves with
  | refl => exact founded
  | tail _ step inductionHypothesis => exact inductionHypothesis.step step

/-! ## What is found -/

theorem lookUp {e : EnvironmentId} {mention : Occurrence} {v : Value}
    (found : h.lookUp e mention = .ok v) :
    v.OnHeap h :=
  lookUp_each founded.names trivial found

theorem lookUpAt {e : EnvironmentId} {distance : Int} {name : String} {v : Value}
    (found : h.lookUpAt e distance name = .ok v) : v.OnHeap h :=
  lookUpAt_each founded.names trivial found

theorem member {i : InstanceId} {key : Occurrence} {v : Value}
    (found : h.member i key = .ok (.field v)) : v.OnHeap h :=
  member_field_each founded.fields found

/-! ## Methods -/

theorem exists_lineage (c : ClassId) : ∃ path, h.Lineage c path :=
  (Chain.exists_of_descends founded.superclasses c).imp fun _ => And.left

/-- The chain of a class holds classes that are there. -/
theorem inside_lineage {c : ClassId} {path : List ClassId} (there : c.index < h.classes.size)
    (chain : h.Lineage c path) : ∀ k ∈ path, k.index < h.classes.size :=
  fun k member => Nat.lt_of_le_of_lt (chain.older founded.superclasses k member) there

/-- The chain of a class is the same for good. -/
theorem lineage_evolves {c : ClassId} {path : List ClassId} (there : c.index < h.classes.size)
    (chain : h.Lineage c path) (evolves : h.Evolves h') : h'.Lineage c path := by
  refine chain.congr fun k member => ?_
  rw [evolves.preserves.classes k (founded.inside_lineage there chain k member)]

/-- What a lookup finds is the same for good. -/
theorem method?_evolves {c : ClassId} (there : c.index < h.classes.size) (evolves : h.Evolves h')
    (name : String) : h'.method? c name = h.method? c name := by
  obtain ⟨path, chain⟩ := founded.exists_lineage c
  have kept := evolves.preserves
  have later := founded.lineage_evolves there chain evolves
  rw [founded.superclasses.method? there chain,
    (founded.evolves evolves).superclasses.method? (Nat.lt_of_lt_of_le there kept.classCount) later]
  -- the classes on the chain have kept their methods, so that the lookup goes the same way
  have own : ∀ k ∈ path, h'.ownMethod? name k = h.ownMethod? name k := fun k member => by
    rw [ownMethod?, ownMethod?, kept.classes k (founded.inside_lineage there chain k member)]
  clear chain later
  induction path with
  | nil => rfl
  | cons k rest inductionHypothesis =>
    obtain ⟨here, others⟩ := List.forall_mem_cons.1 own
    rw [List.findSome?_cons, List.findSome?_cons, here, inductionHypothesis others]

end Founded

/-! ## Lookups -/

/-- A lookup goes up a chain without repetition and takes the first class that has the name. -/
structure NearestFirst (h : Heap) (c : ClassId) (path : List ClassId) : Prop where
  chain : h.Lineage c path
  nodup : path.Nodup
  inside : ∀ k ∈ path, k.index < h.classes.size
  /-- Fuel for the chain is enough: the lookup comes to its end. -/
  ends : ∀ name fuel, path.length ≤ fuel → h.methodWithin name fuel c = h.method? c name
  found : ∀ name f, h.method? c name = some f ↔ ∃ below k above, path = below ++ k :: above ∧
    h.ownMethod? name k = some f ∧ ∀ b ∈ below, h.ownMethod? name b = none
  missing : ∀ name, h.method? c name = none ↔ ∀ k ∈ path, h.ownMethod? name k = none
  code : ∀ name f, h.method? c name = some f → f.index < h.functions.size

/-- The objects of the first heap stay, and so do the chains and what lookups find. -/
structure Settles (h h' : Heap) : Prop where
  preserves : h.Preserves h'
  lineage : ∀ c path, c.index < h.classes.size → h.Lineage c path → h'.Lineage c path
  method : ∀ c name, c.index < h.classes.size → h'.method? c name = h.method? c name

namespace Founded

variable (founded : h.Founded)
include founded

theorem nearestFirst {c : ClassId} (there : c.index < h.classes.size) :
    ∃ path, h.NearestFirst c path := by
  obtain ⟨path, chain⟩ := founded.exists_lineage c
  have lookup := founded.superclasses.method? there chain
  refine ⟨path, chain, chain.nodup founded.superclasses, founded.inside_lineage there chain, ?_, ?_, ?_,
    fun _ _ => method?_each founded.methods⟩
  · intro name fuel enough
    rw [lookup, chain.methodWithin name enough]
  · intro name f
    rw [lookup, List.findSome?_eq_some_iff]
  · intro name
    rw [lookup, List.findSome?_eq_none_iff]

theorem settles (evolves : h.Evolves h') : h.Settles h' where
  preserves := evolves.preserves
  lineage _ _ there chain := founded.lineage_evolves there chain evolves
  method _ name there := founded.method?_evolves there evolves name

/-- No class is above itself. -/
theorem acyclic (c : ClassId) :
    ¬ Relation.TransGen (fun a b => (h.classAt a).superclass = some b) c c := by
  -- numbers fall along the links
  have below : ∀ b, Relation.TransGen (fun a b => (h.classAt a).superclass = some b) c b →
      b.index < c.index := by
    intro b links
    induction links with
    | single link => exact founded.superclasses _ _ link
    | tail _ link inductionHypothesis =>
      exact Nat.lt_trans (founded.superclasses _ _ link) inductionHypothesis
  intro cycle
  exact Nat.lt_irrefl _ (below c cycle)

end Founded

end Heap

end Lox
