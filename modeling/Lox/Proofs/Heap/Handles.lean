import Lox.Proofs.Evaluation.Operators
import Lox.Proofs.Heap.Frames
import Lox.Proofs.Scope.Subjects

/-!
# Handles that lead somewhere

In a closed heap no handle of an environment or of a function dangles, and the occurrences in the functions
have numbers below a bound. Whatever is added to a closed heap leaves it closed if what it mentions is
there.
-/

namespace Lox

/-! ## Closed heaps -/

/-- A function in the value is on the heap. -/
def Value.Inside (h : Heap) : Value → Prop
  | .function f => f.index < h.functions.size
  | _ => True

def Table.Inside (h : Heap) (t : Table Value) : Prop := ∀ name v, t.find? name = some v → v.Inside h

/-- A native function yields no function that it was not given. -/
def NativeBody.Honest : NativeBody → Prop
  | .clock => True
  | .compute result => ∀ arguments f, result arguments = .function f → .function f ∈ arguments

/-- The occurrences among the subjects have numbers below `next`. -/
def Subject.Below (next : Nat) (subjects : List Subject) : Prop := ∀ n ∈ Subject.ids subjects, n < next

section Below

variable {next : Nat} {subjects others : List Subject}

theorem Subject.Below.split (below : Subject.Below next (subjects ++ others)) :
    Subject.Below next subjects ∧ Subject.Below next others := by
  have append : Subject.ids (subjects ++ others) = Subject.ids subjects ++ Subject.ids others :=
    List.filterMap_append
  rw [Subject.Below, append] at below
  exact List.forall_mem_append.1 below

theorem Subject.Below.tail {x : Subject} (below : Subject.Below next (x :: subjects)) :
    Subject.Below next subjects :=
  (show Subject.Below next ([x] ++ subjects) from below).split.2

/-- The bound for all subjects of some parts is one for each part. -/
theorem Subject.Below.part {α : Type} {parts : List α} {f : α → List Subject}
    (below : Subject.Below next (parts.flatMap f)) : ∀ part ∈ parts, Subject.Below next (f part) := by
  intro part member n found
  obtain ⟨x, inside, id⟩ := List.mem_filterMap.1 found
  exact below n (List.mem_filterMap.2 ⟨x, List.mem_flatMap.2 ⟨part, member, inside⟩, id⟩)

theorem Stmt.below_of_mem {ss : List Stmt} (below : Subject.Below next (Stmt.allSubjects ss)) :
    ∀ s ∈ ss, Subject.Below next s.subjects := by
  rw [Stmt.allSubjects_eq] at below
  exact below.part

theorem Expr.below_of_mem {es : List Expr} (below : Subject.Below next (Expr.allSubjects es)) :
    ∀ e ∈ es, Subject.Below next e.subjects := by
  rw [Expr.allSubjects_eq] at below
  exact below.part

theorem Function.below_of_mem {fs : List Function}
    (below : Subject.Below next (Function.allSubjects fs)) :
    ∀ f ∈ fs, Subject.Below next f.subjects := by
  rw [Function.allSubjects_eq] at below
  exact below.part

theorem Function.below_body {f : Function} (below : Subject.Below next f.subjects) :
    ∀ s ∈ f.body, Subject.Below next s.subjects := by
  cases f with
  | mk name parameters body => exact Stmt.below_of_mem below.split.2

end Below

/-- The closure may be on a heap as large as `h`. -/
structure Closure.Inside (next : Nat) (h : Heap) (c : Closure) : Prop where
  environment : c.environment.index < h.environments.size
  below : Subject.Below next c.declaration.subjects

structure Heap.Closed (next : Nat) (h : Heap) : Prop where
  enclosing : ∀ e, ∀ o ∈ (h.environmentAt e).enclosing, o.index < h.environments.size
  names : ∀ e, (h.environmentAt e).names.Inside h
  fields : ∀ i, (h.instanceAt i).fields.Inside h
  methods : ∀ c name f, (h.classAt c).methods.find? name = some f → f.index < h.functions.size
  closures : ∀ f : FunctionId, f.index < h.functions.size → (h.functionAt f).Inside next h
  honest : ∀ n, (h.nativeAt n).body.Honest

/-- The second heap has all handles of the first, and old environments lie inside the same ones. -/
structure Heap.Within (h k : Heap) : Prop where
  environments : h.environments.size ≤ k.environments.size
  functions : h.functions.size ≤ k.functions.size
  enclosing : ∀ e : EnvironmentId, e.index < h.environments.size →
    (k.environmentAt e).enclosing = (h.environmentAt e).enclosing

variable {next : Nat} {h k k' : Heap}

namespace Heap.Within

theorem refl (h : Heap) : h.Within h := ⟨Nat.le_refl _, Nat.le_refl _, fun _ _ => rfl⟩

theorem trans (first : h.Within k) (second : k.Within k') : h.Within k' where
  environments := Nat.le_trans first.environments second.environments
  functions := Nat.le_trans first.functions second.functions
  enclosing e old :=
    (second.enclosing e (Nat.lt_of_lt_of_le old first.environments)).trans (first.enclosing e old)

theorem inside (within : h.Within k) {v : Value} (inside : v.Inside h) : v.Inside k := by
  cases v with
  | function f => exact Nat.lt_of_lt_of_le inside within.functions
  | _ => trivial

theorem tableInside (within : h.Within k) {t : Table Value} (inside : t.Inside h) : t.Inside k :=
  fun name v found => within.inside (inside name v found)

theorem closureInside (within : h.Within k) {c : Closure} (inside : c.Inside next h) :
    c.Inside next k :=
  { inside with environment := Nat.lt_of_lt_of_le inside.environment within.environments }

/-- A heap is closed if all that it mentions is there in a part of it. -/
theorem closed (within : h.Within k)
    (enclosing : ∀ e, ∀ o ∈ (k.environmentAt e).enclosing, o.index < h.environments.size)
    (names : ∀ e, (k.environmentAt e).names.Inside h)
    (fields : ∀ i, (k.instanceAt i).fields.Inside h)
    (methods : ∀ c name f, (k.classAt c).methods.find? name = some f → f.index < h.functions.size)
    (closures : ∀ f : FunctionId, f.index < k.functions.size → (k.functionAt f).Inside next h)
    (honest : ∀ n, (k.nativeAt n).body.Honest) : k.Closed next where
  enclosing e o found := Nat.lt_of_lt_of_le (enclosing e o found) within.environments
  names e := within.tableInside (names e)
  fields i := within.tableInside (fields i)
  methods c name f found := Nat.lt_of_lt_of_le (methods c name f found) within.functions
  closures f inside := within.closureInside (closures f inside)
  honest := honest

end Heap.Within

theorem Value.IsScalar.inside {v : Value} (scalar : v.IsScalar) : v.Inside h := by
  cases v with
  | function f => exact scalar.elim
  | _ => trivial

namespace Table.Inside

theorem empty : (Table.empty : Table Value).Inside h := Table.Each.empty

theorem insert {t : Table Value} (inside : t.Inside h) (name : String) {v : Value}
    (new : v.Inside h) : (t.insert name v).Inside h :=
  Table.Each.insert inside name new

end Table.Inside

namespace Heap.Closed

/-! ## Reading -/

section Reading

variable (closed : h.Closed next)
include closed

theorem lookUp {e : EnvironmentId} {mention : Occurrence} {v : Value}
    (found : h.lookUp e mention = .ok v) :
    v.Inside h :=
  lookUp_each closed.names trivial found

theorem lookUpAt {e : EnvironmentId} {distance : Int} {name : String} {v : Value}
    (found : h.lookUpAt e distance name = .ok v) : v.Inside h :=
  lookUpAt_each closed.names trivial found

theorem method? {c : ClassId} {name : String} {f : FunctionId} (found : h.method? c name = some f) :
    f.index < h.functions.size :=
  method?_each closed.methods found

theorem member (i : InstanceId) (key : Occurrence) :
    (∀ v, h.member i key = .ok (.field v) → v.Inside h) ∧
      ∀ f, h.member i key = .ok (.method f) → f.index < h.functions.size :=
  ⟨fun _ => member_field_each closed.fields, fun _ => member_method_each closed.methods⟩

end Reading

/-! ## Adding -/

variable (closed : h.Closed next)
include closed

theorem define (e : EnvironmentId) (name : String) {v : Value} (new : v.Inside h) :
    h.Within (h.define e name v) ∧ (h.define e name v).Closed next := by
  have within : h.Within (h.define e name v) :=
    ⟨Nat.le_of_eq (h.size_define e name v).symm, Nat.le_refl _, fun o _ =>
      h.enclosing_define e o name v⟩
  refine ⟨within, within.closed ?_ ?_ closed.fields closed.methods closed.closures closed.honest⟩
  · intro o
    rw [enclosing_define]
    exact closed.enclosing o
  · intro o
    rw [Heap.environmentAt, Heap.define, getD_modify]
    split
    · exact (closed.names o).insert name new
    · exact closed.names o

theorem setField (i : InstanceId) (name : String) {v : Value} (new : v.Inside h) :
    h.Within (h.setField i name v) ∧ (h.setField i name v).Closed next := by
  have within : h.Within (h.setField i name v) := ⟨Nat.le_refl _, Nat.le_refl _, fun _ _ => rfl⟩
  refine ⟨within, within.closed closed.enclosing closed.names ?_ closed.methods closed.closures
    closed.honest⟩
  intro j
  rw [Heap.instanceAt, Heap.setField, getD_modify]
  split
  · exact (closed.fields j).insert name new
  · exact closed.fields j

theorem newEnvironment (env : Environment) (names : env.names.Inside h)
    (enclosing : ∀ o ∈ env.enclosing, o.index < h.environments.size) :
    h.Within (h.newEnvironment env).2 ∧ (h.newEnvironment env).2.Closed next ∧
      (h.newEnvironment env).1.index < (h.newEnvironment env).2.environments.size := by
  -- Older environments stay, so handles that led somewhere still do.
  have within : h.Within (h.newEnvironment env).2 := by
    refine ⟨by simp [Heap.newEnvironment], Nat.le_refl _, fun e old => ?_⟩
    rw [h.environmentAt_newEnvironment_old env old]
  refine ⟨within, within.closed ?_ ?_ closed.fields closed.methods closed.closures closed.honest,
    by simp [Heap.newEnvironment]⟩
  · intro e
    rw [environmentAt_newEnvironment]
    split
    · exact enclosing
    · exact closed.enclosing e
  · intro e
    rw [environmentAt_newEnvironment]
    split
    · exact names
    · exact closed.names e

theorem newFunction {c : Closure} (inside : c.Inside next h) :
    h.Within (h.newFunction c).2 ∧ (h.newFunction c).2.Closed next ∧
      (h.newFunction c).1.index < (h.newFunction c).2.functions.size := by
  have within : h.Within (h.newFunction c).2 :=
    ⟨Nat.le_refl _, by simp [Heap.newFunction], fun _ _ => rfl⟩
  refine ⟨within, within.closed closed.enclosing closed.names closed.fields closed.methods ?_
    closed.honest, by simp [Heap.newFunction]⟩
  intro f there
  rw [functionAt_newFunction]
  split
  · exact inside
  · next other =>
    refine closed.closures f ?_
    have size : (h.newFunction c).2.functions.size = h.functions.size + 1 := Array.size_push _
    have distinct : f.index ≠ h.functions.size := fun same =>
      other (congrArg FunctionId.mk same)
    omega

theorem newClass (made : Class)
    (methods : ∀ name f, made.methods.find? name = some f → f.index < h.functions.size) :
    h.Within (h.newClass made).2 ∧ (h.newClass made).2.Closed next := by
  have within : h.Within (h.newClass made).2 := ⟨Nat.le_refl _, Nat.le_refl _, fun _ _ => rfl⟩
  refine ⟨within, within.closed closed.enclosing closed.names closed.fields ?_ closed.closures
    closed.honest⟩
  intro c name f found
  rw [classAt_newClass] at found
  split at found
  · exact methods name f found
  · exact closed.methods c name f found

theorem newInstance (c : ClassId) :
    h.Within (h.newInstance c).2 ∧ (h.newInstance c).2.Closed next := by
  have within : h.Within (h.newInstance c).2 := ⟨Nat.le_refl _, Nat.le_refl _, fun _ _ => rfl⟩
  refine ⟨within, within.closed closed.enclosing closed.names ?_ closed.methods closed.closures
    closed.honest⟩
  intro i
  rw [instanceAt_newInstance]
  split
  · exact .empty
  · exact closed.fields i

theorem bind {f : FunctionId} (there : f.index < h.functions.size) (i : InstanceId) :
    h.Within (h.bind f i).2 ∧ (h.bind f i).2.Closed next ∧
      (h.bind f i).1.index < (h.bind f i).2.functions.size := by
  have inside := closed.closures f there
  obtain ⟨first, made, new⟩ := closed.newEnvironment
    ⟨Table.empty.insert "this" (.instance i), some (h.functionAt f).environment⟩
    (Table.Inside.empty.insert "this" trivial) fun o around => Option.some.inj around ▸ inside.environment
  obtain ⟨second, made', callable⟩ := made.newFunction
    (c := { h.functionAt f with environment := ⟨h.environments.size⟩ }) ⟨new, inside.below⟩
  exact ⟨first.trans second, made', callable⟩

end Heap.Closed

end Lox
