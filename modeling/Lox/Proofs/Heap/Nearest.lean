import Lox.Proofs.Evaluation.Access
import Lox.Proofs.Heap.Chains
import Lox.Proofs.Heap.Frames

/-!
# The nearest environment that holds a name

Walking outwards until an environment holds the name, and jumping to the distance at which the nearest
one lies, come to the same environment. So they read the same value and write the same heap, in which
one entry is new. A jump fails where the chain is too short or where it lands beside the name.
-/

namespace Lox

namespace Heap

variable {h : Heap}

/-! ## Environments that come about -/

/-- Environments that are made and written to in any order, each inside one that is there. -/
inductive Written : Heap → Prop where
  | empty : Written .empty
  | newEnvironment {h : Heap} {outer : Option EnvironmentId} : Written h →
      (∀ o ∈ outer, o.index < h.environments.size) → Written (h.newEnvironment ⟨.empty, outer⟩).2
  | define {h : Heap} {e : EnvironmentId} (mention : String) (value : Value) : Written h →
      e.index < h.environments.size → Written (h.define e mention value)
  | assign {h h' : Heap} {e : EnvironmentId} {mention : Occurrence} {value : Value} : Written h →
      e.index < h.environments.size → h.assign e mention value = .ok h' → Written h'
  | assignAt {h h' : Heap} {e : EnvironmentId} {distance : Int} {mention : String} {value : Value} :
      Written h → e.index < h.environments.size → h.assignAt e distance mention value = .ok h' →
      Written h'

/-- An assignment that succeeds defines the name where it is found. -/
theorem assign_ok {h' : Heap} {e : EnvironmentId} {mention : Occurrence} {value : Value}
    (assigned : h.assign e mention value = .ok h') :
    ∃ o, h.holder e mention = .ok o ∧ h' = h.define o mention.name value := by
  rw [Heap.assign] at assigned
  cases found : h.holder e mention with
  | error error =>
    rw [found] at assigned
    cases assigned
  | ok o =>
    rw [found] at assigned
    exact ⟨o, rfl, (Except.ok.inj assigned).symm⟩

theorem assignAt_ok {h' : Heap} {e : EnvironmentId} {distance : Int} {name : String} {value : Value}
    (assigned : h.assignAt e distance name value = .ok h') :
    ∃ o, h.holderAt e distance name = .ok o ∧ h' = h.define o name value := by
  rw [Heap.assignAt] at assigned
  cases found : h.holderAt e distance name with
  | error fault =>
    rw [found] at assigned
    cases assigned
  | ok o =>
    rw [found] at assigned
    exact ⟨o, rfl, (Except.ok.inj assigned).symm⟩

theorem Nested.define (nested : h.Nested) (e : EnvironmentId) (name : String) (value : Value) :
    (h.define e name value).Nested := by
  intro o outer enclosing
  dsimp only at enclosing
  rw [enclosing_define] at enclosing
  exact nested o outer enclosing

/-- The handle of a new environment is the first one that is not in use yet. -/
theorem Nested.newEnvironment (nested : h.Nested) {env : Environment}
    (inside : ∀ o ∈ env.enclosing, o.index < h.environments.size) :
    (h.newEnvironment env).2.Nested := by
  intro e o enclosing
  dsimp only at enclosing
  rw [environmentAt_newEnvironment] at enclosing
  -- the new environment, and the older ones, which keep what encloses them
  split at enclosing
  · next new =>
    rw [new]
    exact inside o enclosing
  · exact nested e o enclosing

theorem Written.nested (written : h.Written) : h.Nested := by
  induction written with
  | empty =>
    intro e o enclosing
    cases enclosing
  | newEnvironment _ inside inductionHypothesis => exact inductionHypothesis.newEnvironment inside
  | define name value _ _ inductionHypothesis => exact inductionHypothesis.define _ name value
  | assign _ _ assigned inductionHypothesis =>
    obtain ⟨o, -, rfl⟩ := assign_ok assigned
    exact inductionHypothesis.define o _ _
  | assignAt _ _ assigned inductionHypothesis =>
    obtain ⟨o, -, rfl⟩ := assignAt_ok assigned
    exact inductionHypothesis.define o _ _

/-! ## The least distance -/

/-- On a chain of environments, `a` at distance `k` is the first that holds the name. -/
structure Nearest (h : Heap) (path : List EnvironmentId) (name : String) (k : Nat)
    (a : EnvironmentId) : Prop where
  there : path[k]? = some a
  holds : (h.environmentAt a).names.contains name = true
  first : ∀ j < k, ∀ b, path[j]? = some b → (h.environmentAt b).names.contains name = false

section Lookup

variable {e a : EnvironmentId} {path : List EnvironmentId} {name : String} {k : Nat}

theorem find?_eq_some_iff_nearest :
    (path.find? fun o => (h.environmentAt o).names.contains name) = some a ↔
      ∃ k, h.Nearest path name k a := by
  rw [List.find?_eq_some_iff_getElem]
  constructor
  · rintro ⟨holds, k, inside, there, first⟩
    refine ⟨k, ⟨by rw [List.getElem?_eq_getElem inside, there], holds, fun j before b found => ?_⟩⟩
    have missed := first j before
    rw [List.getElem?_eq_getElem (by omega)] at found
    rw [Option.some.inj found] at missed
    simpa using missed
  · rintro ⟨k, nearest⟩
    obtain ⟨inside, there⟩ := List.getElem?_eq_some_iff.1 nearest.there
    refine ⟨nearest.holds, k, inside, there, fun j before => ?_⟩
    rw [nearest.first j before _ (List.getElem?_eq_getElem (by omega))]
    rfl

variable (nested : h.Nested) (inside : e.index < h.environments.size) (chain : h.Enclosure e path)
include nested inside chain

/-- Walking outwards ends at the nearest environment. -/
theorem Nearest.holder? (nearest : h.Nearest path name k a) : h.holder? e name = some a := by
  rw [nested.holder? inside chain]
  exact find?_eq_some_iff_nearest.2 ⟨k, nearest⟩

theorem nearest_of_holder? (found : h.holder? e name = some a) : ∃ k, h.Nearest path name k a := by
  rw [nested.holder? inside chain] at found
  exact find?_eq_some_iff_nearest.1 found

/-- Where no environment on the chain holds the name, there is nothing to read or to write. -/
theorem undefined {mention : Occurrence} (nowhere : ∀ k a, ¬ h.Nearest path mention.name k a) :
    h.holder e mention = .error ⟨.undefinedVariable mention.name, mention⟩ := by
  rw [holder]
  cases found : h.holder? e mention.name with
  | none => rfl
  | some a =>
    obtain ⟨k, nearest⟩ := nearest_of_holder? nested inside chain found
    exact absurd nearest (nowhere k a)

end Lookup

/-! ## At a distance -/

section Distance

variable {e : EnvironmentId} {path : List EnvironmentId} (chain : h.Enclosure e path)
include chain

theorem Enclosure.ancestor {d : Nat} {a : EnvironmentId} (there : path[d]? = some a) :
    h.ancestor e d = .ok a := by
  have found : h.ancestor? e (Int.toNat d) = some a := by
    rw [Int.toNat_natCast, chain.ancestor?, there]
  rw [Heap.ancestor, found]

/-- A jump finds an environment just if the chain is long enough and the name is there. -/
theorem Enclosure.holderAt (name : String) (d : Nat) :
    h.holderAt e d name =
      match path[d]? with
      | none => .error (.noEnvironment d)
      | some a =>
        if (h.environmentAt a).names.contains name then .ok a
        else .error (.unresolvedBinding name d) := by
  cases found : path[d]? with
  | none =>
    have short : h.ancestor? e (Int.toNat d) = none := by
      rw [Int.toNat_natCast, chain.ancestor?, found]
    rw [Heap.holderAt, Heap.ancestor, short]
    rfl
  | some a =>
    rw [Heap.holderAt, chain.ancestor found]
    rfl

/-- A jump fails just if the chain is too short or the environment there lacks the name. -/
theorem Enclosure.holderAt_fails_iff (name : String) (d : Nat) :
    (∃ fault, h.holderAt e d name = .error fault) ↔
      path.length ≤ d ∨
        ∃ a, path[d]? = some a ∧ (h.environmentAt a).names.contains name = false := by
  rw [chain.holderAt]
  cases found : path[d]? with
  | none => simp [List.getElem?_eq_none_iff.1 found]
  | some a =>
    have long : d < path.length := (List.getElem?_eq_some_iff.1 found).1
    cases holds : (h.environmentAt a).names.contains name <;> simp [holds, Nat.not_le.2 long]

omit chain in
/-- To read or to write at a distance fails just if the jump does. -/
theorem access_fails_iff (e : EnvironmentId) (name : String) (d : Int) (value : Value) :
    ((∃ fault, h.lookUpAt e d name = .error fault) ↔ ∃ fault, h.holderAt e d name = .error fault) ∧
      ((∃ fault, h.assignAt e d name value = .error fault) ↔
        ∃ fault, h.holderAt e d name = .error fault) := by
  rw [lookUpAt, assignAt]
  cases h.holderAt e d name with
  | error fault => exact ⟨iff_of_true ⟨_, rfl⟩ ⟨_, rfl⟩, iff_of_true ⟨_, rfl⟩ ⟨_, rfl⟩⟩
  | ok a => constructor <;> constructor <;> rintro ⟨_, ⟨⟩⟩

end Distance

/-! ## Writing -/

section Define

variable {a o : EnvironmentId} {name x : String} {value : Value}

/-- One entry is new: that of the name in environment `a`. -/
theorem find?_define_here (present : (h.environmentAt a).names.contains name = true) :
    ((h.define a name value).environmentAt o).names.find? x =
      if o = a ∧ x = name then some value else (h.environmentAt o).names.find? x := by
  obtain ⟨old, found⟩ := Option.isSome_iff_exists.1 present
  have inBounds := index_of_find? found
  rw [environmentAt_define _ _ _ _ _ inBounds]
  by_cases here : a = o
  · subst here
    by_cases same : x = name
    · subst same
      simp
    · simp [Table.find?_insert_of_ne _ _ (Ne.symm same), same]
  · simp [here, Ne.symm here]

/-- No environment gains a name, so that each name is found where it was. -/
theorem contains_define_here (present : (h.environmentAt a).names.contains name = true) :
    ((h.define a name value).environmentAt o).names.contains x =
      (h.environmentAt o).names.contains x := by
  rw [Table.contains, Table.contains, find?_define_here present]
  split
  · next here =>
    rw [here.1, here.2]
    exact present.symm
  · rfl

theorem holder?_define_here (present : (h.environmentAt a).names.contains name = true) :
    (h.define a name value).holder? o x = h.holder? o x := by
  have within : ∀ fuel o, (h.define a name value).holderWithin x fuel o =
      h.holderWithin x fuel o := by
    intro fuel
    induction fuel with
    | zero => exact fun _ => rfl
    | succ fuel inductionHypothesis =>
      intro o
      simp only [holderWithin, contains_define_here present, enclosing_define, inductionHypothesis]
  rw [holder?, holder?, size_define, within]

/-- A plain lookup sees the new value just if the nearest environment is the one written to. -/
theorem lookUp_define_here (present : (h.environmentAt a).names.contains name = true)
    (mention : Occurrence) :
    (h.define a name value).lookUp o mention =
      if h.holder? o mention.name = some a ∧ mention.name = name then .ok value
      else h.lookUp o mention := by
  rw [lookUp, lookUp, holder, holder, holder?_define_here present]
  cases found : h.holder? o mention.name with
  | none =>
    rw [if_neg (by simp)]
    rfl
  | some b =>
    change Except.ok ((h.define a name value).valueIn b mention.name) =
      if some b = some a ∧ mention.name = name then .ok value else .ok (h.valueIn b mention.name)
    rw [valueIn, find?_define_here present]
    -- The holder is found as before; what it holds is new just if it was written to by this name.
    by_cases here : b = a ∧ mention.name = name
    · rw [if_pos here, if_pos ⟨congrArg some here.1, here.2⟩]
      rfl
    · rw [if_neg here, if_neg fun seen => here ⟨Option.some.inj seen.1, seen.2⟩]
      rfl

end Define

/-- In `h'` the name has the new value in environment `a`, and all else is as in `h`. -/
structure Replaced (h : Heap) (a : EnvironmentId) (name : String) (value : Value) (h' : Heap) :
    Prop where
  objects : h' = { h with environments := h'.environments }
  count : h'.environments.size = h.environments.size
  enclosing : ∀ o, (h'.environmentAt o).enclosing = (h.environmentAt o).enclosing
  entries : ∀ o x, (h'.environmentAt o).names.find? x =
    if o = a ∧ x = name then some value else (h.environmentAt o).names.find? x
  /-- The new value is seen from where environment `a` is the nearest one that holds the name. -/
  seen : ∀ o path k (mention : Occurrence), o.index < h.environments.size → h.Enclosure o path →
    h.Nearest path name k a → mention.name = name → h'.lookUp o mention = .ok value
  unseen : ∀ o path (mention : Occurrence), o.index < h.environments.size → h.Enclosure o path →
    (∀ k, h.Nearest path mention.name k a → mention.name ≠ name) →
    h'.lookUp o mention = h.lookUp o mention

theorem Nested.replaced (nested : h.Nested) {a : EnvironmentId} {name : String}
    (present : (h.environmentAt a).names.contains name = true) (value : Value) :
    h.Replaced a name value (h.define a name value) where
  objects := rfl
  count := size_define h a name value
  enclosing o := enclosing_define h a o name value
  entries _ _ := find?_define_here present
  seen o path k mention inside chain nearest named := by
    subst named
    rw [lookUp_define_here present, if_pos ⟨nearest.holder? nested inside chain, rfl⟩]
  unseen o path mention inside chain other := by
    rw [lookUp_define_here present, if_neg]
    rintro ⟨found, named⟩
    obtain ⟨k, nearest⟩ := nearest_of_holder? nested inside chain found
    exact other k nearest named

end Heap

/-- An access that fails leaves the machine as it was. -/
theorem Run.access_fails (o : Occurrence) (value : Value) {m m' : Machine} {signal : Signal} :
    (lookUp o m = .error signal m' → m' = m) ∧ (assign o value m = .error signal m' → m' = m) := by
  cases recorded : m.distances.find? o.id with
  | none =>
    rw [lookUp_global recorded, assign_global recorded]
    constructor
    · intro failed
      cases found : m.heap.lookUp m.globals o <;> rw [found] at failed <;> cases failed
      rfl
    · intro failed
      cases found : m.heap.holder m.globals o <;> rw [found] at failed <;> cases failed
      rfl
  | some d =>
    rw [lookUp_local recorded, assign_local recorded]
    constructor
    · intro failed
      cases found : m.heap.lookUpAt m.current d o.name <;> rw [found] at failed <;> cases failed
      rfl
    · intro failed
      cases found : m.heap.holderAt m.current d o.name <;> rw [found] at failed <;> cases failed
      rfl

/--
In environments that have come about by making them and by writing to them, let `a` be the nearest one
on the chain of `e` that holds a name, at distance `k`. Then to read the name along the chain is to read
it at distance `k`, and to write it either way gives the same heap, in which the entry of `a` is new and
nothing else. If no environment on the chain holds the name, it is undefined. A jump to any distance
fails just if the chain is too short or lacks the name there; and no access that fails has an effect.
-/
theorem access_agrees {h : Heap} (written : h.Written) {e : EnvironmentId}
    (inside : e.index < h.environments.size) (mention : Occurrence) :
    (∃ path, h.Enclosure e path ∧
      (∀ k a, h.Nearest path mention.name k a → h.ancestor e k = .ok a ∧
        (∃ v, (h.environmentAt a).names.find? mention.name = some v ∧
          h.lookUp e mention = .ok v ∧ h.lookUpAt e k mention.name = .ok v) ∧
        ∀ value, ∃ h', h.assign e mention value = .ok h' ∧
          h.assignAt e k mention.name value = .ok h' ∧ h.Replaced a mention.name value h') ∧
      ((∀ k a, ¬ h.Nearest path mention.name k a) →
        h.lookUp e mention = .error ⟨.undefinedVariable mention.name, mention⟩ ∧
          ∀ value, h.assign e mention value = .error ⟨.undefinedVariable mention.name, mention⟩) ∧
      ∀ (d : Nat) (value : Value),
        ((∃ fault, h.lookUpAt e d mention.name = .error fault) ↔ path.length ≤ d ∨
          ∃ a, path[d]? = some a ∧ (h.environmentAt a).names.contains mention.name = false) ∧
        ((∃ fault, h.assignAt e d mention.name value = .error fault) ↔ path.length ≤ d ∨
          ∃ a, path[d]? = some a ∧ (h.environmentAt a).names.contains mention.name = false)) ∧
    ∀ (o : Occurrence) (value : Value) (m m' : Machine) (signal : Signal),
      (Run.lookUp o m = .error signal m' → m' = m) ∧
        (Run.assign o value m = .error signal m' → m' = m) := by
  have nested := written.nested
  obtain ⟨path, chain⟩ := nested.exists_enclosure e
  refine ⟨⟨path, chain, ?_, ?_, ?_⟩, fun o value m m' signal => Run.access_fails o value⟩
  · intro k a nearest
    obtain ⟨v, found⟩ := Option.isSome_iff_exists.1 nearest.holds
    -- both ways lead to `a`
    have walked : h.holder e mention = .ok a := by
      rw [Heap.holder, nearest.holder? nested inside chain]
    have jumped : h.holderAt e k mention.name = .ok a := by
      rw [chain.holderAt, nearest.there]
      exact if_pos nearest.holds
    have value : h.valueIn a mention.name = v := by rw [Heap.valueIn, found, Option.getD_some]
    refine ⟨chain.ancestor nearest.there, ⟨v, found, ?_, ?_⟩, fun new =>
      ⟨h.define a mention.name new, ?_, ?_, ?_⟩⟩
    · rw [Heap.lookUp, walked, ← value]
      rfl
    · rw [Heap.lookUpAt, jumped, ← value]
      rfl
    · rw [Heap.assign, walked]
      rfl
    · rw [Heap.assignAt, jumped]
      rfl
    · exact nested.replaced nearest.holds new
  · intro nowhere
    have undefined := Heap.undefined nested inside chain nowhere
    refine ⟨?_, fun value => ?_⟩
    · rw [Heap.lookUp, undefined]
      rfl
    · rw [Heap.assign, undefined]
      rfl
  · intro d value
    have fails := h.access_fails_iff e mention.name d value
    have jumps := chain.holderAt_fails_iff mention.name d
    exact ⟨fails.1.trans jumps, fails.2.trans jumps⟩

/-- Three environments inside one another; the outer two hold a name, the innermost does not. -/
def shadowed : Heap :=
  let outermost := (Heap.empty.newEnvironment ⟨.empty, none⟩).2.define ⟨0⟩ "a" (.bool false)
  let around := (outermost.newEnvironment ⟨.empty, some ⟨0⟩⟩).2.define ⟨1⟩ "a" (.bool true)
  (around.newEnvironment ⟨.empty, some ⟨1⟩⟩).2

theorem shadowed_written : shadowed.Written :=
  .newEnvironment (.define "a" (.bool true) (.newEnvironment (.define "a" (.bool false)
    (.newEnvironment .empty (by simp)) (by decide)) (by simp [Heap.define, Heap.newEnvironment]))
    (by decide)) (by simp [Heap.define, Heap.newEnvironment])

def nameA : Token := ⟨.identifier, "a", .nil, 1⟩

theorem access_agrees_shadowed :
    shadowed.Written ∧ 2 < shadowed.environments.size ∧
      (∃ v, shadowed.lookUp ⟨2⟩ nameA = .ok v ∧ shadowed.lookUpAt ⟨2⟩ 1 "a" = .ok v) ∧
      ∀ value, ∃ h', shadowed.assign ⟨2⟩ nameA value = .ok h' ∧
        shadowed.assignAt ⟨2⟩ 1 "a" value = .ok h' ∧
        (h'.environmentAt ⟨0⟩).names.find? "a" = (shadowed.environmentAt ⟨0⟩).names.find? "a" := by
  have inside : 2 < shadowed.environments.size := by decide
  obtain ⟨⟨path, chain, agrees, -⟩, -⟩ := access_agrees shadowed_written inside nameA
  obtain rfl : path = [⟨2⟩, ⟨1⟩, ⟨0⟩] :=
    chain.unique (.link rfl (.link rfl (.last rfl)))
  have nearest : shadowed.Nearest [⟨2⟩, ⟨1⟩, ⟨0⟩] nameA.lexeme 1 ⟨1⟩ := by
    refine ⟨rfl, by decide, fun j before b found => ?_⟩
    obtain rfl : j = 0 := by omega
    obtain rfl := Option.some.inj found
    decide
  obtain ⟨-, ⟨v, -, walked, jumped⟩, writes⟩ := agrees 1 ⟨1⟩ nearest
  refine ⟨shadowed_written, inside, ⟨v, walked, jumped⟩, fun value => ?_⟩
  obtain ⟨h', plain, distant, replaced⟩ := writes value
  refine ⟨h', plain, distant, ?_⟩
  rw [replaced.entries, if_neg (by decide)]

end Lox
