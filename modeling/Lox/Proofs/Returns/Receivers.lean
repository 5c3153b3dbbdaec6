import Lox.Proofs.Heap.Frames
import Lox.Proofs.Returns.Episodes
import Lox.Proofs.Returns.Permitted

/-!
# Receivers of initializers

In an orderly heap the resolver permits every function, and a function that a program can get hold of
is bound if it is an initializer. The heap of a session is orderly from the start and stays so as it
grows, because no program gives `this` a value and every way to an initializer binds it.
-/

namespace Lox

/-- The resolver permits the function of the closure in a function of its kind. -/
def Closure.Permitted (c : Closure) : Prop :=
  ∃ kind, kind ≠ .outside ∧ (c.isInitializer = true → kind = .initializer) ∧
    c.declaration.Permitted kind

namespace Heap

/-- The functions stay as they are, and so does the `this` of every environment. -/
structure Extends (h h' : Heap) : Prop where
  functionCount : h.functions.size ≤ h'.functions.size
  functions : ∀ f : FunctionId, f.index < h.functions.size → h'.functionAt f = h.functionAt f
  environmentCount : h.environments.size ≤ h'.environments.size
  this : ∀ e : EnvironmentId, e.index < h.environments.size →
    (h'.environmentAt e).names.find? "this" = (h.environmentAt e).names.find? "this"

/-- An initializer is bound to an instance. -/
def Bound (h : Heap) (c : Closure) : Prop :=
  c.isInitializer = true → ∃ object, h.receiver? c = some (.instance object)

end Heap

/-- A function among the values of a heap is there, and bound if it is an initializer. -/
def Value.Proper (h : Heap) : Value → Prop
  | .function f => f.index < h.functions.size ∧ h.Bound (h.functionAt f)
  | _ => True

def Table.Proper (h : Heap) (t : Table Value) : Prop :=
  ∀ name v, t.find? name = some v → v.Proper h

/-- Programs can get at proper values only, and the resolver permits what they call. -/
structure Heap.Orderly (h : Heap) : Prop where
  natives : ∀ n, (h.nativeAt n).body = .clock
  functions : ∀ f, (h.functionAt f).Permitted
  environments : ∀ e, (h.environmentAt e).names.Proper h
  instances : ∀ i, (h.instanceAt i).fields.Proper h

namespace Table.Proper

variable {h : Heap} {t : Table Value}

theorem empty : (Table.empty : Table Value).Proper h := Table.Each.empty

theorem insert (proper : t.Proper h) (name : String) {value : Value} (new : value.Proper h) :
    (t.insert name value).Proper h :=
  Table.Each.insert proper name new

theorem parameterTable (parameters : List Token) {arguments : List Value}
    (new : ∀ v ∈ arguments, v.Proper h) : (Run.parameterTable parameters arguments).Proper h :=
  Table.Each.empty.insertZip _ new

end Table.Proper

namespace Heap

variable {h h' h'' : Heap}

/-! ## Growing heaps -/

theorem Extends.refl (h : Heap) : h.Extends h :=
  ⟨Nat.le_refl _, fun _ _ => rfl, Nat.le_refl _, fun _ _ => rfl⟩

theorem Extends.trans (first : h.Extends h') (second : h'.Extends h'') : h.Extends h'' where
  functionCount := Nat.le_trans first.functionCount second.functionCount
  functions f old := (second.functions f (Nat.lt_of_lt_of_le old first.functionCount)).trans
    (first.functions f old)
  environmentCount := Nat.le_trans first.environmentCount second.environmentCount
  this e old := (second.this e (Nat.lt_of_lt_of_le old first.environmentCount)).trans
    (first.this e old)

theorem Extends.receiver? (grows : h.Extends h') {c : Closure} {v : Value}
    (receiver : h.receiver? c = some v) : h'.receiver? c = some v := by
  rw [Heap.receiver?, grows.this _ (index_of_find? receiver)]
  exact receiver

theorem Extends.bound (grows : h.Extends h') {c : Closure} (bound : h.Bound c) : h'.Bound c := by
  intro initializer
  obtain ⟨object, receiver⟩ := bound initializer
  exact ⟨object, grows.receiver? receiver⟩

theorem Extends.proper (grows : h.Extends h') {v : Value} (proper : v.Proper h) :
    v.Proper h' := by
  cases v with
  | function f =>
    obtain ⟨inside, bound⟩ := proper
    refine ⟨Nat.lt_of_lt_of_le inside grows.functionCount, ?_⟩
    rw [grows.functions f inside]
    exact grows.bound bound
  | _ => trivial

/-- In a heap that grows the old values stay proper. -/
theorem Extends.orderly (grows : h.Extends h') (natives : ∀ n, (h'.nativeAt n).body = .clock)
    (functions : ∀ f, (h'.functionAt f).Permitted)
    (environments : ∀ e, (h'.environmentAt e).names.Proper h)
    (instances : ∀ i, (h'.instanceAt i).fields.Proper h) :
    h'.Orderly where
  natives := natives
  functions := functions
  environments e name v found := grows.proper (environments e name v found)
  instances i name v found := grows.proper (instances i name v found)

/-! ## Reading -/

namespace Orderly

variable (orderly : h.Orderly)
include orderly

theorem lookUp {e : EnvironmentId} {mention : Occurrence} {v : Value}
    (found : h.lookUp e mention = .ok v) :
    v.Proper h :=
  lookUp_each orderly.environments trivial found

theorem lookUpAt {e : EnvironmentId} {distance : Int} {name : String} {v : Value}
    (found : h.lookUpAt e distance name = .ok v) : v.Proper h :=
  lookUpAt_each orderly.environments trivial found

theorem member {i : InstanceId} {key : Occurrence} {v : Value}
    (found : h.member i key = .ok (.field v)) : v.Proper h :=
  member_field_each orderly.instances found

end Orderly

/-- What a closure is bound to is what its own environment holds as `this`. -/
theorem lookUpAt_this {c : Closure} {v : Value} (receiver : h.receiver? c = some v) :
    h.lookUpAt c.environment 0 "this" = .ok v := by
  have found : (h.environmentAt c.environment).names.find? "this" = some v := receiver
  have holder : h.holderAt c.environment 0 "this" = .ok c.environment := by
    simp [holderAt, ancestor, ancestor?, Table.contains, found, Bind.bind, Except.bind, Pure.pure,
      Except.pure]
  rw [lookUpAt, holder]
  simp [Heap.valueIn, found, Bind.bind, Except.bind, Pure.pure, Except.pure]

/-! ## Writing -/

/-- An orderly heap that has grown. -/
structure Grows (h h' : Heap) : Prop where
  extended : h.Extends h'
  orderly : h'.Orderly

namespace Orderly

variable (orderly : h.Orderly)
include orderly

theorem define (e : EnvironmentId) {name : String} (ordinary : IsOrdinary name) {value : Value}
    (proper : value.Proper h) : h.Grows (h.define e name value) := by
  have extended : h.Extends (h.define e name value) := by
    refine ⟨Nat.le_refl _, fun _ _ => rfl, Nat.le_of_eq (h.size_define e name value).symm, ?_⟩
    intro e' _
    rw [find?_define, if_neg ordinary.1, ite_self]
  refine ⟨extended, extended.orderly orderly.natives orderly.functions ?_ orderly.instances⟩
  intro e' other v found
  rw [find?_define] at found
  split at found
  · split at found
    · exact Option.some.inj found ▸ proper
    · exact orderly.environments e' other v found
  · exact orderly.environments e' other v found

/-- Any name may be defined in an environment that is the receiver's of no function. -/
theorem define_free {e : EnvironmentId}
    (free : ∀ object, (h.environmentAt e).names.find? "this" ≠ some (.instance object))
    (name : String) {value : Value} (proper : value.Proper h) :
    (h.define e name value).Orderly := by
  -- A proper function has its receiver in an environment that is not the one written to.
  have still : ∀ {v : Value}, v.Proper h → v.Proper (h.define e name value) := by
    intro v proper
    cases v with
    | function f =>
      obtain ⟨inside, bound⟩ := proper
      refine ⟨inside, fun initializer => ?_⟩
      obtain ⟨object, receiver⟩ := bound initializer
      refine ⟨object, (find?_define ..).trans ?_⟩
      split
      · next here =>
        obtain rfl : e = (h.functionAt f).environment := EnvironmentId.mk.injEq .. ▸ here.1
        exact absurd receiver (free object)
      · exact receiver
    | _ => trivial
  refine ⟨orderly.natives, orderly.functions, ?_, fun i other v found =>
    still (orderly.instances i other v found)⟩
  intro e' other v found
  rw [find?_define] at found
  split at found
  · split at found
    · exact Option.some.inj found ▸ still proper
    · exact still (orderly.environments e' other v found)
  · exact still (orderly.environments e' other v found)

theorem setField (i : InstanceId) (name : String) {value : Value} (proper : value.Proper h) :
    h.Grows (h.setField i name value) := by
  have extended : h.Extends (h.setField i name value) :=
    ⟨Nat.le_refl _, fun _ _ => rfl, Nat.le_refl _, fun _ _ => rfl⟩
  refine ⟨extended, extended.orderly orderly.natives orderly.functions orderly.environments ?_⟩
  intro i' other v found
  rw [find?_setField] at found
  split at found
  · split at found
    · exact Option.some.inj found ▸ proper
    · exact orderly.instances i' other v found
  · exact orderly.instances i' other v found

theorem newEnvironment {env : Environment} (proper : env.names.Proper h) :
    h.Grows (h.newEnvironment env).2 := by
  have extended : h.Extends (h.newEnvironment env).2 := by
    refine ⟨Nat.le_refl _, fun _ _ => rfl, by simp [Heap.newEnvironment], ?_⟩
    intro e old
    rw [h.environmentAt_newEnvironment_old env old]
  refine ⟨extended, extended.orderly orderly.natives orderly.functions ?_ orderly.instances⟩
  intro e
  rw [environmentAt_newEnvironment]
  split
  · exact proper
  · exact orderly.environments e

theorem newFunction {c : Closure} (permitted : c.Permitted) :
    h.Grows (h.newFunction c).2 := by
  have extended : h.Extends (h.newFunction c).2 := by
    exact ⟨by simp [Heap.newFunction], fun f old => h.functionAt_newFunction_old c old,
      Nat.le_refl _, fun _ _ => rfl⟩
  refine ⟨extended, extended.orderly orderly.natives ?_ orderly.environments orderly.instances⟩
  intro f
  rw [functionAt_newFunction]
  split
  · exact permitted
  · exact orderly.functions f

theorem newClass (c : Class) : h.Grows (h.newClass c).2 := by
  have extended : h.Extends (h.newClass c).2 :=
    ⟨Nat.le_refl _, fun _ _ => rfl, Nat.le_refl _, fun _ _ => rfl⟩
  exact ⟨extended, extended.orderly orderly.natives orderly.functions orderly.environments
    orderly.instances⟩

theorem newInstance (c : ClassId) : h.Grows (h.newInstance c).2 := by
  have extended : h.Extends (h.newInstance c).2 :=
    ⟨Nat.le_refl _, fun _ _ => rfl, Nat.le_refl _, fun _ _ => rfl⟩
  refine ⟨extended, extended.orderly orderly.natives orderly.functions orderly.environments ?_⟩
  intro i
  rw [instanceAt_newInstance]
  split
  · exact .empty
  · exact orderly.instances i

omit orderly in
theorem receiver?_newEnvironment {env : Environment} {v : Value}
    (found : env.names.find? "this" = some v) (declaration : Function) (isInitializer : Bool) :
    (h.newEnvironment env).2.receiver?
      ⟨declaration, (h.newEnvironment env).1, isInitializer⟩ = some v := by
  rw [Heap.receiver?, environmentAt_newEnvironment, if_pos rfl]
  exact found

omit orderly in
/-- A function that has just been made is proper if it is bound. -/
theorem proper_newFunction {c : Closure} (bound : h.Bound c) :
    (Value.function (h.newFunction c).1).Proper (h.newFunction c).2 := by
  refine ⟨by simp [Heap.newFunction], ?_⟩
  rw [functionAt_newFunction, if_pos rfl]
  exact bound

/-- Binding a method makes a function that is bound, whatever the method is. -/
theorem bind (f : FunctionId) (i : InstanceId) :
    h.Grows (h.bind f i).2 ∧ (Value.function (h.bind f i).1).Proper (h.bind f i).2 := by
  have made : h.Grows (h.newEnvironment
      ⟨Table.empty.insert "this" (.instance i), some (h.functionAt f).environment⟩).2 :=
    orderly.newEnvironment (Table.Proper.empty.insert "this" trivial)
  obtain ⟨extended, grown⟩ := made.orderly.newFunction (c := { h.functionAt f with
    environment := ⟨h.environments.size⟩ }) (orderly.functions f)
  refine ⟨⟨made.extended.trans extended, grown⟩, proper_newFunction fun _ => ⟨i, ?_⟩⟩
  exact receiver?_newEnvironment (Table.find?_insert_self _ _ _) _ _

end Orderly

end Heap

end Lox
