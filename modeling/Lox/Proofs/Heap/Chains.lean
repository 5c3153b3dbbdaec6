import Lox.Heap.Object
import Mathlib.Data.List.Pairwise

/-!
# Chains

Environments lie inside one another, and classes have superclasses. Where each link leads to an older
object, the links from an object on form a chain: a list without repetition, which ends at an object
that has no link. A lookup along the links is a lookup in that list, and it has fuel enough.
-/

namespace Lox

variable {ι : Type} {next : ι → Option ι}

/-- The objects from `i` on, each linked to the one behind it, up to the one that has no link. -/
inductive Chain (next : ι → Option ι) : ι → List ι → Prop where
  | last {i : ι} : next i = none → Chain next i [i]
  | link {i j : ι} {rest : List ι} : next i = some j → Chain next j rest → Chain next i (i :: rest)

/-- Each link leads to an object of a lower number. -/
def Descends (next : ι → Option ι) (number : ι → Nat) : Prop :=
  ∀ i j, next i = some j → number j < number i

namespace Chain

variable {i : ι} {path : List ι}

/-- Links determine the chain. -/
theorem unique {path' : List ι} (chain : Chain next i path) (chain' : Chain next i path') :
    path = path' := by
  induction chain generalizing path' with
  | last none =>
    cases chain' with
    | last => rfl
    | link some _ =>
      rw [none] at some
      cases some
  | link first _ inductionHypothesis =>
    cases chain' with
    | last none =>
      rw [first] at none
      cases none
    | link first' chain' =>
      rw [first] at first'
      obtain rfl := Option.some.inj first'
      rw [inductionHypothesis chain']

/-- Objects whose links are the same have the same chain. -/
theorem congr {next' : ι → Option ι} (chain : Chain next i path)
    (same : ∀ j ∈ path, next' j = next j) : Chain next' i path := by
  induction chain with
  | last none => exact .last ((same _ (by simp)).trans none)
  | link first _ inductionHypothesis =>
    obtain ⟨here, later⟩ := List.forall_mem_cons.1 same
    exact .link (here.trans first) (inductionHypothesis later)

variable {number : ι → Nat} (descends : Descends next number)
include descends

/-- The induction is on the number of the object, which bounds the length of the chain. -/
theorem exists_of_descends (i : ι) : ∃ path, Chain next i path ∧ path.length ≤ number i + 1 := by
  induction bound : number i using Nat.strongRecOn generalizing i with
  | ind n inductionHypothesis =>
    cases first : next i with
    | none => exact ⟨[i], .last first, by simp⟩
    | some j =>
      -- the link goes to a lower number, for which the chain is known
      have older : number j < n := bound ▸ descends i j first
      obtain ⟨rest, chain, length⟩ := inductionHypothesis (number j) older j rfl
      exact ⟨i :: rest, .link first chain, by simp only [List.length_cons]; omega⟩

/-- Behind an object there are only older ones. -/
theorem older (chain : Chain next i path) : ∀ j ∈ path, number j ≤ number i := by
  induction chain with
  | last _ => simp
  | @link i j rest first _ inductionHypothesis =>
    have below := descends i j first
    intro k member
    rcases List.mem_cons.1 member with rfl | member
    · exact Nat.le_refl _
    · exact Nat.le_trans (inductionHypothesis k member) (Nat.le_of_lt below)

theorem nodup (chain : Chain next i path) : path.Nodup := by
  induction chain with
  | last _ => simp
  | @link i j rest first chain inductionHypothesis =>
    have below := descends i j first
    refine List.nodup_cons.2 ⟨fun member => ?_, inductionHypothesis⟩
    have older := chain.older descends i member
    omega

end Chain

namespace Heap

variable {h : Heap}

/-! ## Environments -/

/-- The environments from `e` outwards. -/
def Enclosure (h : Heap) : EnvironmentId → List EnvironmentId → Prop :=
  Chain fun e => (h.environmentAt e).enclosing

/-- Every environment lies inside an older one. -/
def Nested (h : Heap) : Prop := Descends (fun e => (h.environmentAt e).enclosing) (·.index)

namespace Enclosure

variable {e : EnvironmentId} {path : List EnvironmentId}

/-- Fuel for the whole chain is enough. -/
theorem holderWithin (chain : h.Enclosure e path) (name : String) {fuel : Nat}
    (enough : path.length ≤ fuel) :
    h.holderWithin name fuel e =
      path.find? fun o => (h.environmentAt o).names.contains name := by
  induction chain generalizing fuel with
  | @last e outermost =>
    obtain ⟨fuel, rfl⟩ := Nat.exists_eq_add_of_le' enough
    simp only [List.length_singleton, Heap.holderWithin, List.find?_singleton, outermost]
  | @link e o rest enclosing chain inductionHypothesis =>
    simp only [List.length_cons] at enough
    obtain ⟨fuel, rfl⟩ := Nat.exists_eq_add_of_le' (Nat.le_of_add_left_le enough)
    simp only [Heap.holderWithin, enclosing, List.find?_cons]
    cases (h.environmentAt e).names.contains name with
    | true => simp
    | false => simpa using inductionHypothesis (by omega)

/-- A distance is a position on the chain. -/
theorem ancestor? (chain : h.Enclosure e path) (distance : Nat) :
    h.ancestor? e distance = path[distance]? := by
  induction chain generalizing distance with
  | last outermost => cases distance <;> simp [Heap.ancestor?, outermost]
  | link enclosing _ inductionHypothesis =>
    cases distance with
    | zero => simp [Heap.ancestor?]
    | succ distance => simpa [Heap.ancestor?, enclosing] using inductionHypothesis distance

end Enclosure

namespace Nested

variable (nested : h.Nested) {e : EnvironmentId} {path : List EnvironmentId}
include nested

theorem exists_enclosure (e : EnvironmentId) : ∃ path, h.Enclosure e path :=
  (Chain.exists_of_descends nested e).imp fun _ => And.left

/-- The nearest environment that holds a name is the first one on the chain that does. -/
theorem holder? (inside : e.index < h.environments.size) (chain : h.Enclosure e path)
    (name : String) :
    h.holder? e name = path.find? fun o => (h.environmentAt o).names.contains name := by
  obtain ⟨path', chain', length⟩ := Chain.exists_of_descends nested e
  obtain rfl := chain.unique chain'
  exact chain.holderWithin name (by omega)

end Nested

/-! ## Classes -/

/-- The classes from `c` upwards. -/
def Lineage (h : Heap) : ClassId → List ClassId → Prop :=
  Chain fun c => (h.classAt c).superclass

/-- Every class is younger than its superclass. -/
def Graded (h : Heap) : Prop := Descends (fun c => (h.classAt c).superclass) (·.index)

/-- What a class itself, and not a superclass, has for the name of a method. -/
def ownMethod? (h : Heap) (name : String) (c : ClassId) : Option FunctionId :=
  (h.classAt c).methods.find? name

theorem Lineage.methodWithin {c : ClassId} {path : List ClassId} (chain : h.Lineage c path)
    (name : String) {fuel : Nat} (enough : path.length ≤ fuel) :
    h.methodWithin name fuel c = path.findSome? (h.ownMethod? name) := by
  induction chain generalizing fuel with
  | @last c root =>
    obtain ⟨fuel, rfl⟩ := Nat.exists_eq_add_of_le' enough
    simp only [List.length_singleton, Heap.methodWithin, List.findSome?_cons, List.findSome?_nil,
      root, ownMethod?]
    cases (h.classAt c).methods.find? name <;> rfl
  | @link c parent rest superclass chain inductionHypothesis =>
    simp only [List.length_cons] at enough
    obtain ⟨fuel, rfl⟩ := Nat.exists_eq_add_of_le' (Nat.le_of_add_left_le enough)
    simp only [Heap.methodWithin, superclass, List.findSome?_cons, ownMethod?]
    cases (h.classAt c).methods.find? name with
    | some f => rfl
    | none => exact inductionHypothesis (by omega)

/-- The method that a lookup finds is that of the first class on the chain that has one. -/
theorem Graded.method? (graded : h.Graded) {c : ClassId} {path : List ClassId}
    (inside : c.index < h.classes.size) (chain : h.Lineage c path) (name : String) :
    h.method? c name = path.findSome? (h.ownMethod? name) := by
  obtain ⟨path', chain', length⟩ := Chain.exists_of_descends graded c
  obtain rfl := chain.unique chain'
  exact chain.methodWithin name (by omega)

end Heap

end Lox
