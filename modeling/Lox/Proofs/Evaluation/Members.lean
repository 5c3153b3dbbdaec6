import Lox.Evaluation.Evaluate
import Lox.Proofs.Evaluation.Access
import Lox.Proofs.Heap.Evolution
import Mathlib.Data.List.Induction

/-!
# Members

What a class declaration puts into the table of its class, and what reading a property of an instance
comes to: a field, else a method that is bound to the instance, else an error.
-/

namespace Lox

namespace Run

variable {α β : Type} {m m' : Machine}

theorem exists_of_bind_ok {run : Run α} {f : α → Run β} {b : β} (ran : (run >>= f) m = .ok b m') :
    ∃ a m₁, run m = .ok a m₁ ∧ f a m₁ = .ok b m' := by
  rw [show (run >>= f) m = EStateM.bind run f m from rfl, EStateM.bind] at ran
  cases first : run m with
  | error signal m₁ =>
    rw [first] at ran
    cases ran
  | ok a m₁ =>
    rw [first] at ran
    exact ⟨a, m₁, rfl, ran⟩

theorem ofRuntime_ok {result : Except RuntimeError α} {a : α}
    (ran : ofRuntime result m = .ok a m') : m' = m ∧ result = .ok a := by
  cases result with
  | ok b =>
    cases ran
    exact ⟨rfl, rfl⟩
  | error error => cases ran

theorem ofInternal_ok {result : Except InternalFault α} {a : α}
    (ran : ofInternal result m = .ok a m') : m' = m ∧ result = .ok a := by
  cases result with
  | ok b =>
    cases ran
    exact ⟨rfl, rfl⟩
  | error fault => cases ran

/-- A lookup changes nothing. -/
theorem lookUp_ok {mention : Occurrence} {v : Value} (found : lookUp mention m = .ok v m') :
    m' = m := by
  cases recorded : m.distances.find? mention.id with
  | some d =>
    rw [lookUp_local recorded] at found
    exact (ofInternal_ok found).1
  | none =>
    rw [lookUp_global recorded] at found
    exact (ofRuntime_ok found).1

end Run

/-! ## Class declarations -/

/-- The table holds for each name the method of the last declaration with that name. -/
structure Heap.Tabulates (h : Heap) (e : EnvironmentId) (methods : List Function)
    (table : Table FunctionId) : Prop where
  there : table.Each (·.index < h.functions.size)
  last : ∀ x, (table.find? x).map h.functionAt =
    (methods.reverse.find? (·.name.lexeme = x)).map fun method => ⟨method, e, method.isInitializer⟩

namespace Heap.Tabulates

variable {h : Heap} {e : EnvironmentId} {methods : List Function} {table : Table FunctionId}

theorem empty : h.Tabulates e [] .empty := ⟨.empty, fun _ => rfl⟩

/-- One more declaration takes the place of an earlier one with the same name. -/
theorem insert (tabulates : h.Tabulates e methods table) (method : Function) :
    let made := h.newFunction ⟨method, e, method.isInitializer⟩
    made.2.Tabulates e (methods ++ [method]) (table.insert method.name.lexeme made.1) := by
  intro made
  have kept : h.Preserves made.2 := (Lawful.newFunction _).preserves
  have old : table.Each (·.index < made.2.functions.size) :=
    tabulates.there.mono fun f inside => Nat.lt_of_lt_of_le inside kept.functionCount
  refine ⟨old.insert _ (by simp [made, Heap.newFunction]), fun x => ?_⟩
  rw [Table.find?_insert, List.reverse_concat, List.find?_cons]
  -- the last declaration comes first in the reversed list
  by_cases same : method.name.lexeme = x
  · simp [same, made, functionAt_newFunction]
  · simp only [same, if_false, decide_false]
    rw [← tabulates.last x]
    cases found : table.find? x with
    | none => rfl
    | some f => exact congrArg some (kept.functions f (tabulates.there x f found))

end Heap.Tabulates

namespace Run

variable {m m' : Machine}

/-- The induction is on the declarations from the last one back, as the table is filled. -/
theorem methodTable_ok {e : EnvironmentId} {methods : List Function} {table : Table FunctionId}
    (made : methodTable e methods m = .ok table m') :
    m'.heap.Tabulates e methods table ∧ m'.heap.classes = m.heap.classes := by
  induction methods using List.reverseRecOn generalizing m' table with
  | nil =>
    cases made
    exact ⟨.empty, rfl⟩
  | append_singleton methods method inductionHypothesis =>
    rw [methodTable, List.foldlM_append] at made
    obtain ⟨earlier, m₁, first, last⟩ := exists_of_bind_ok made
    obtain ⟨tabulates, classes⟩ := inductionHypothesis first
    cases last
    exact ⟨tabulates.insert method, classes⟩

/-- The superclass of a declaration is the value of the name that it mentions. -/
theorem superclasses_ok {superclass : Option Occurrence} {parent : Option ClassId}
    (found : superclass.mapM superclassOf m = .ok parent m') :
    m' = m ∧ superclass.isSome = parent.isSome ∧
      ∀ mention ∈ superclass, ∀ k ∈ parent, lookUp mention m = .ok (.class k) m := by
  cases superclass with
  | none =>
    cases found
    exact ⟨rfl, rfl, nofun⟩
  | some mention =>
    obtain ⟨k, m₁, one, last⟩ := exists_of_bind_ok found
    obtain ⟨value, m₂, looked, isClass⟩ := exists_of_bind_ok one
    obtain rfl := lookUp_ok looked
    cases value with
    | «class» c =>
      cases isClass
      cases last
      refine ⟨rfl, rfl, ?_⟩
      rintro _ ⟨⟩ _ ⟨⟩
      exact looked
    | _ => cases isClass

/-- What a declaration puts on the heap: a class with its name, its superclass and its methods. -/
structure Declared (h h' : Heap) (name : Occurrence) (parent : Option ClassId)
    (methods : List Function) : Prop where
  new : h'.classes.size = h.classes.size + 1
  name : (h'.classAt ⟨h.classes.size⟩).name = name.name
  superclass : (h'.classAt ⟨h.classes.size⟩).superclass = parent
  /-- Of two methods with one name the later one counts. -/
  own : ∀ x, (h'.ownMethod? x ⟨h.classes.size⟩).map (fun f => (h'.functionAt f).declaration) =
    methods.reverse.find? (·.name.lexeme = x)

/-- The class of a declaration is made once its methods are, and then the name stands for it. -/
theorem newClass_ok {name : Occurrence} {parent : Option ClassId} {methods : List Function}
    {inner e : EnvironmentId}
    (ran : (do
      let table ← methodTable inner methods
      let c ← change (·.newClass ⟨name.name, parent, table⟩)
      let holder ← ofRuntime (← ask (·.holder e name))
      defineIn holder name.name (.class c)) m = .ok () m') :
    Declared m.heap m'.heap name parent methods := by
  obtain ⟨table, m₁, filled, rest⟩ := exists_of_bind_ok ran
  obtain ⟨tabulates, classes⟩ := methodTable_ok filled
  obtain ⟨c, m₂, new, rest⟩ := exists_of_bind_ok rest
  cases new
  obtain ⟨found, m₃, asked, rest⟩ := exists_of_bind_ok rest
  cases asked
  obtain ⟨holder, m₄, held, defined⟩ := exists_of_bind_ok rest
  obtain ⟨rfl, -⟩ := ofRuntime_ok held
  cases defined
  -- the methods are on the heap before the class, but no class is, so that its number is the next one
  have number : (m₁.heap.newClass ⟨name.name, parent, table⟩).1 = ⟨m.heap.classes.size⟩ := by
    simp [Heap.newClass, classes]
  have entry := m₁.heap.classAt_newClass ⟨name.name, parent, table⟩ ⟨m.heap.classes.size⟩
  rw [if_pos number.symm] at entry
  refine ⟨by simp [Heap.define, classes], ?_, ?_, fun x => ?_⟩
  · exact congrArg Class.name entry
  · exact congrArg Class.superclass entry
  · have own : ((m₁.heap.newClass ⟨name.name, parent, table⟩).2.ownMethod? x
        ⟨m.heap.classes.size⟩) = table.find? x := congrArg (·.methods.find? x) entry
    have last := congrArg (Option.map Closure.declaration) (tabulates.last x)
    rw [Option.map_map, Option.map_map] at last
    exact (congrArg _ own).trans (last.trans Option.map_id_apply)

theorem declareClass_ok {name : Occurrence} {superclass : Option Occurrence}
    {methods : List Function}
    (declared : declareClass name superclass methods m = .ok () m') :
    ∃ parent, superclass.isSome = parent.isSome ∧
      (∀ mention ∈ superclass, ∀ k ∈ parent, lookUp mention m = .ok (.class k) m) ∧
      Declared m.heap m'.heap name parent methods := by
  obtain ⟨parent, m₁, found, rest⟩ := exists_of_bind_ok declared
  obtain ⟨rfl, both, value⟩ := superclasses_ok found
  refine ⟨parent, both, value, ?_⟩
  obtain ⟨_, m₂, unset, rest⟩ := exists_of_bind_ok rest
  cases unset
  obtain ⟨e, m₃, here, rest⟩ := exists_of_bind_ok rest
  cases here
  cases parent with
  | none =>
    have made := newClass_ok rest
    exact { made with }
  | some c =>
    obtain ⟨inner, m₄, around, rest⟩ := exists_of_bind_ok rest
    cases around
    have made := newClass_ok rest
    exact { made with }

end Run

/-! ## Properties -/

/-- In the later heap `g` is `f` with `this` bound to the instance, in an environment of its own. -/
structure Heap.Binds (h h' : Heap) (f g : FunctionId) (i : InstanceId) : Prop where
  new : g.index = h.functions.size
  closure : h'.functionAt g = { h.functionAt f with environment := ⟨h.environments.size⟩ }
  this : h'.environmentAt ⟨h.environments.size⟩ =
    ⟨Table.empty.insert "this" (.instance i), some (h.functionAt f).environment⟩

theorem Heap.bind_binds (h : Heap) (f : FunctionId) (i : InstanceId) :
    h.Binds (h.bind f i).2 f (h.bind f i).1 i where
  new := rfl
  closure := (functionAt_newFunction ..).trans (if_pos rfl)
  this := (environmentAt_newEnvironment ..).trans (if_pos rfl)

/--
What reading a property of an instance comes to, whose class has the given chain: a field, else the
method of the nearest class on the chain that has one, else an error.
-/
structure Machine.Reads (m : Machine) (i : InstanceId) (path : List ClassId) (key : Occurrence) :
    Prop where
  field : ∀ v, (m.heap.instanceAt i).fields.find? key.name = some v →
    Run.property (.instance i) key m = .ok v m
  method : (m.heap.instanceAt i).fields.find? key.name = none → ∀ below k above f,
    path = below ++ k :: above → m.heap.ownMethod? key.name k = some f →
    (∀ b ∈ below, m.heap.ownMethod? key.name b = none) →
    ∃ g h', Run.property (.instance i) key m = .ok (.function g) { m with heap := h' } ∧
      m.heap.Binds h' f g i
  undefined : (m.heap.instanceAt i).fields.find? key.name = none →
    (∀ k ∈ path, m.heap.ownMethod? key.name k = none) →
    Run.property (.instance i) key m =
      .error (.failed ⟨.undefinedProperty key.name, key⟩) m

theorem Heap.NearestFirst.reads {m : Machine} {i : InstanceId} {path : List ClassId}
    (nearest : m.heap.NearestFirst (m.heap.instanceAt i).ofClass path) (key : Occurrence) :
    m.Reads i path key := by
  have asked {member : Except RuntimeError Heap.Member} (found : m.heap.member i key = member) :
      Run.ask (·.member i key) m = .ok member m := found ▸ rfl
  -- a field hides a method of the same name
  refine ⟨fun v field => ?_, fun absent below k above f split own first => ?_,
    fun absent nowhere => ?_⟩
  · have found : m.heap.member i key = .ok (.field v) := by rw [Heap.member, field]
    rw [Run.property, Run.bind_of_ok (asked found)]
    rfl
  · have method := (nearest.found key.name f).2 ⟨below, k, above, split, own, first⟩
    have found : m.heap.member i key = .ok (.method f) := by rw [Heap.member, absent, method]
    rw [Run.property, Run.bind_of_ok (asked found)]
    exact ⟨_, _, rfl, m.heap.bind_binds f i⟩
  · have missing := (nearest.missing key.name).2 nowhere
    have found : m.heap.member i key = .error ⟨.undefinedProperty key.name, key⟩ := by
      rw [Heap.member, absent, missing]
    rw [Run.property, Run.bind_of_ok (asked found)]
    rfl

end Lox
