import Lox.Heap.Object

/-!
# What an operation leaves alone

A new object changes no older one, and an update changes one object only.
-/

namespace Lox

/-! ## Arrays with a default -/

section Arrays

variable {α : Type} (xs : Array α) (d : α)

theorem getD_push (a : α) (i : Nat) :
    (xs.push a).getD i d = if i = xs.size then a else xs.getD i d := by
  simp only [Array.getD_eq_getD_getElem?, Array.getElem?_push]
  split <;> rfl

theorem getD_modify (f : α → α) (i j : Nat) :
    (xs.modify i f).getD j d = if i = j ∧ i < xs.size then f (xs.getD j d) else xs.getD j d := by
  simp only [Array.getD_eq_getD_getElem?, Array.getElem?_modify]
  by_cases same : i = j
  · subst same
    by_cases inside : i < xs.size
    · simp [inside]
    · simp [inside]
  · simp [same]

theorem getD_set (a : α) (i j : Nat) :
    (xs.setIfInBounds i a).getD j d = if i = j ∧ i < xs.size then a else xs.getD j d := by
  simp only [Array.getD_eq_getD_getElem?, Array.getElem?_setIfInBounds]
  by_cases same : i = j
  · subst same
    by_cases inside : i < xs.size
    · simp [inside]
    · simp [inside]
  · simp [same]

theorem getD_map {β : Type} (f : α → β) (i : Nat) :
    (xs.map f).getD i (f d) = f (xs.getD i d) := by
  simp only [Array.getD_eq_getD_getElem?, Array.getElem?_map, Option.getD_map]

end Arrays

theorem Table.insert_insert {α : Type} (t : Table α) (name : String) (first second : α) :
    (t.insert name first).insert name second = t.insert name second := by
  obtain ⟨entries⟩ := t
  simp only [Table.insert, Table.mk.injEq]
  induction entries with
  | nil => simp [Table.insertInto]
  | cons entry rest inductionHypothesis =>
    obtain ⟨key, old⟩ := entry
    by_cases same : key = name
    · simp [Table.insertInto, same]
    · simp [Table.insertInto, same, inductionHypothesis]

/-- Every entry of the table has the property. -/
def Table.Each {α : Type} (t : Table α) (P : α → Prop) : Prop :=
  ∀ name a, t.find? name = some a → P a

namespace Table.Each

variable {α : Type} {t : Table α} {P Q : α → Prop}

theorem empty : (Table.empty : Table α).Each P := by
  rintro _ _ ⟨⟩

theorem mono (each : t.Each P) (implies : ∀ a, P a → Q a) : t.Each Q :=
  fun name a found => implies a (each name a found)

theorem insert (each : t.Each P) (name : String) {a : α} (new : P a) : (t.insert name a).Each P := by
  intro other b found
  rw [Table.find?_insert] at found
  split at found
  · exact Option.some.inj found ▸ new
  · exact each other b found

theorem insertAll (each : t.Each P) (pairs : List (String × α)) (new : ∀ pair ∈ pairs, P pair.2) :
    (t.insertAll pairs).Each P := by
  induction pairs generalizing t with
  | nil => exact each
  | cons pair rest inductionHypothesis =>
    obtain ⟨first, others⟩ := List.forall_mem_cons.1 new
    exact inductionHypothesis (each.insert pair.1 first) others

/-- Names with what they are paired with, as the parameters of a call with its arguments. -/
theorem insertZip (each : t.Each P) (names : List String) {values : List α}
    (new : ∀ a ∈ values, P a) : (t.insertAll (names.zip values)).Each P :=
  each.insertAll _ fun pair member => new pair.2 (List.of_mem_zip member).2

end Table.Each

namespace Heap

variable (h : Heap)

/-! ## Environments -/

/-- An environment that holds a name exists. -/
theorem index_of_find? {h : Heap} {e : EnvironmentId} {name : String} {v : Value}
    (found : (h.environmentAt e).names.find? name = some v) : e.index < h.environments.size := by
  apply Nat.lt_of_not_le
  intro outside
  have absent : h.environmentAt e = default := by
    simp [environmentAt, Array.getD_eq_getD_getElem?, outside]
  rw [absent] at found
  cases found

theorem environmentAt_newEnvironment (env : Environment) (e : EnvironmentId) :
    (h.newEnvironment env).2.environmentAt e =
      if e = (h.newEnvironment env).1 then env else h.environmentAt e := by
  obtain ⟨index⟩ := e
  simp only [environmentAt, newEnvironment, getD_push, EnvironmentId.mk.injEq]

/-- An environment is added behind those that are there. -/
theorem environmentAt_newEnvironment_old (env : Environment) {e : EnvironmentId}
    (old : e.index < h.environments.size) :
    (h.newEnvironment env).2.environmentAt e = h.environmentAt e := by
  rw [environmentAt_newEnvironment, if_neg]
  rintro rfl
  exact Nat.lt_irrefl _ old

theorem environmentAt_define (e e' : EnvironmentId) (name : String) (value : Value)
    (inBounds : e.index < h.environments.size) :
    (h.define e name value).environmentAt e' =
      if e = e' then
        { h.environmentAt e' with names := (h.environmentAt e').names.insert name value }
      else h.environmentAt e' := by
  obtain ⟨index⟩ := e
  obtain ⟨index'⟩ := e'
  simp only [environmentAt, define, getD_modify, EnvironmentId.mk.injEq, inBounds, and_true]

theorem find?_define (e e' : EnvironmentId) (name other : String) (value : Value) :
    ((h.define e name value).environmentAt e').names.find? other =
      if e.index = e'.index ∧ e.index < h.environments.size then
        if name = other then some value else (h.environmentAt e').names.find? other
      else (h.environmentAt e').names.find? other := by
  simp only [environmentAt, define, getD_modify]
  split
  · rw [Table.find?_insert]
  · rfl

theorem enclosing_define (e e' : EnvironmentId) (name : String) (value : Value) :
    ((h.define e name value).environmentAt e').enclosing = (h.environmentAt e').enclosing := by
  simp only [environmentAt, define, getD_modify]
  split <;> rfl

theorem size_define (e : EnvironmentId) (name : String) (value : Value) :
    (h.define e name value).environments.size = h.environments.size := by
  simp [define]

theorem define_define (e : EnvironmentId) (name : String) (first second : Value) :
    (h.define e name first).define e name second = h.define e name second := by
  simp only [define, Heap.mk.injEq, and_true]
  ext1
  · simp
  · simp only [Array.getElem_modify]
    split <;> simp [Table.insert_insert]

/-- A name may as well be put into the table of an environment before the environment is made. -/
theorem define_newEnvironment (env : Environment) (name : String) (value : Value) :
    (h.newEnvironment env).2.define (h.newEnvironment env).1 name value =
      (h.newEnvironment { env with names := env.names.insert name value }).2 := by
  simp only [newEnvironment, define, Heap.mk.injEq, and_true]
  ext1
  · simp
  · next i _ _ =>
    simp only [Array.getElem_modify, Array.getElem_push]
    grind

/-! ## Objects -/

theorem nativeAt_newNative (made : Native) (n : NativeId) :
    (h.newNative made).2.nativeAt n = if n = (h.newNative made).1 then made else h.nativeAt n := by
  obtain ⟨index⟩ := n
  simp only [nativeAt, newNative, getD_push, NativeId.mk.injEq]

theorem functionAt_newFunction (closure : Closure) (f : FunctionId) :
    (h.newFunction closure).2.functionAt f =
      if f = (h.newFunction closure).1 then closure else h.functionAt f := by
  obtain ⟨index⟩ := f
  simp only [functionAt, newFunction, getD_push, FunctionId.mk.injEq]

theorem classAt_newClass (made : Class) (c : ClassId) :
    (h.newClass made).2.classAt c = if c = (h.newClass made).1 then made else h.classAt c := by
  obtain ⟨index⟩ := c
  simp only [classAt, newClass, getD_push, ClassId.mk.injEq]

theorem instanceAt_newInstance (c : ClassId) (i : InstanceId) :
    (h.newInstance c).2.instanceAt i =
      if i = (h.newInstance c).1 then ⟨c, .empty⟩ else h.instanceAt i := by
  obtain ⟨index⟩ := i
  simp only [instanceAt, newInstance, getD_push, InstanceId.mk.injEq]

theorem functionAt_newFunction_old (closure : Closure) {f : FunctionId}
    (old : f.index < h.functions.size) :
    (h.newFunction closure).2.functionAt f = h.functionAt f := by
  rw [functionAt_newFunction, if_neg]
  rintro rfl
  exact Nat.lt_irrefl _ old

theorem classAt_newClass_old (made : Class) {c : ClassId} (old : c.index < h.classes.size) :
    (h.newClass made).2.classAt c = h.classAt c := by
  rw [classAt_newClass, if_neg]
  rintro rfl
  exact Nat.lt_irrefl _ old

theorem instanceAt_newInstance_old (c : ClassId) {i : InstanceId}
    (old : i.index < h.instances.size) :
    (h.newInstance c).2.instanceAt i = h.instanceAt i := by
  rw [instanceAt_newInstance, if_neg]
  rintro rfl
  exact Nat.lt_irrefl _ old

theorem instanceAt_setField (i i' : InstanceId) (name : String) (value : Value)
    (inBounds : i.index < h.instances.size) :
    (h.setField i name value).instanceAt i' =
      if i = i' then
        { h.instanceAt i' with fields := (h.instanceAt i').fields.insert name value }
      else h.instanceAt i' := by
  obtain ⟨index⟩ := i
  obtain ⟨index'⟩ := i'
  simp only [instanceAt, setField, getD_modify, InstanceId.mk.injEq, inBounds, and_true]

theorem find?_setField (i i' : InstanceId) (name other : String) (value : Value) :
    ((h.setField i name value).instanceAt i').fields.find? other =
      if i.index = i'.index ∧ i.index < h.instances.size then
        if name = other then some value else (h.instanceAt i').fields.find? other
      else (h.instanceAt i').fields.find? other := by
  simp only [instanceAt, setField, getD_modify]
  split
  · rw [Table.find?_insert]
  · rfl

/-! ## What is found

What holds of `nil` and of every entry on the heap holds of what a lookup yields.
-/

section Found

variable {h : Heap} {P : Value → Prop} {v : Value}

theorem valueIn_each (names : ∀ e, (h.environmentAt e).names.Each P) (unset : P .nil)
    (e : EnvironmentId) (name : String) : P (h.valueIn e name) := by
  rw [Heap.valueIn]
  cases found : (h.environmentAt e).names.find? name with
  | none => exact unset
  | some v => exact names e name v found

theorem lookUp_each (names : ∀ e, (h.environmentAt e).names.Each P) (unset : P .nil)
    {e : EnvironmentId} {mention : Occurrence} (found : h.lookUp e mention = .ok v) : P v := by
  rw [Heap.lookUp] at found
  cases holder : h.holder e mention with
  | error error =>
    rw [holder] at found
    cases found
  | ok o =>
    rw [holder] at found
    exact Except.ok.inj found ▸ valueIn_each names unset o mention.name

theorem lookUpAt_each (names : ∀ e, (h.environmentAt e).names.Each P) (unset : P .nil)
    {e : EnvironmentId} {distance : Int} {name : String}
    (found : h.lookUpAt e distance name = .ok v) : P v := by
  rw [Heap.lookUpAt] at found
  cases holder : h.holderAt e distance name with
  | error fault =>
    rw [holder] at found
    cases found
  | ok o =>
    rw [holder] at found
    exact Except.ok.inj found ▸ valueIn_each names unset o name

theorem member_field_each (fields : ∀ i, (h.instanceAt i).fields.Each P) {i : InstanceId}
    {key : Occurrence} (found : h.member i key = .ok (.field v)) : P v := by
  rw [Heap.member] at found
  split at found
  · next value field =>
    cases found
    exact fields i _ _ field
  · split at found <;> cases found

theorem method?_each {P : FunctionId → Prop} (methods : ∀ c, (h.classAt c).methods.Each P)
    {c : ClassId} {name : String} {f : FunctionId} (found : h.method? c name = some f) : P f := by
  have within : ∀ fuel c, h.methodWithin name fuel c = some f → P f := by
    intro fuel
    induction fuel with
    | zero =>
      rintro c ⟨⟩
    | succ fuel inductionHypothesis =>
      intro c found
      rw [Heap.methodWithin] at found
      split at found
      · next method here =>
        obtain rfl := Option.some.inj found
        exact methods c name method here
      · split at found
        · cases found
        · exact inductionHypothesis _ found
  exact within _ c found

theorem member_method_each {P : FunctionId → Prop} (methods : ∀ c, (h.classAt c).methods.Each P)
    {i : InstanceId} {key : Occurrence} {f : FunctionId}
    (found : h.member i key = .ok (.method f)) : P f := by
  rw [Heap.member] at found
  split at found
  · cases found
  · split at found
    · next method here =>
      cases found
      exact method?_each methods here
    · cases found

end Found

/-! ## What an operation looks at

A lookup along environments looks at environments only, and one along classes at classes only. -/

section Congruence

variable {h k : Heap}

theorem environmentAt_congr (same : h.environments = k.environments) (e : EnvironmentId) :
    h.environmentAt e = k.environmentAt e := by
  rw [environmentAt, environmentAt, same]

theorem holder?_congr (same : h.environments = k.environments) (e : EnvironmentId) (name : String) :
    h.holder? e name = k.holder? e name := by
  have within : ∀ fuel e, h.holderWithin name fuel e = k.holderWithin name fuel e := by
    intro fuel
    induction fuel with
    | zero => exact fun _ => rfl
    | succ fuel inductionHypothesis =>
      intro e
      simp only [holderWithin, environmentAt_congr same, inductionHypothesis]
  rw [holder?, holder?, same, within]

theorem ancestor?_congr (same : h.environments = k.environments) (e : EnvironmentId)
    (distance : Nat) : h.ancestor? e distance = k.ancestor? e distance := by
  induction distance generalizing e with
  | zero => rfl
  | succ distance inductionHypothesis =>
    simp only [ancestor?, environmentAt_congr same, inductionHypothesis]

theorem holderAt_congr (same : h.environments = k.environments) (e : EnvironmentId)
    (distance : Int) (name : String) : h.holderAt e distance name = k.holderAt e distance name := by
  simp only [holderAt, ancestor, ancestor?_congr same, environmentAt_congr same]

theorem lookUpAt_congr (same : h.environments = k.environments) (e : EnvironmentId)
    (distance : Int) (name : String) : h.lookUpAt e distance name = k.lookUpAt e distance name := by
  simp only [lookUpAt, holderAt_congr same, valueIn, environmentAt_congr same]

theorem methodWithin_congr (same : h.classes = k.classes) (name : String)
    (fuel : Nat) (c : ClassId) : h.methodWithin name fuel c = k.methodWithin name fuel c := by
  have here : ∀ c, h.classAt c = k.classAt c := fun c => by rw [classAt, classAt, same]
  induction fuel generalizing c with
  | zero => rfl
  | succ fuel inductionHypothesis =>
    simp only [methodWithin, here, inductionHypothesis]

theorem method?_congr (same : h.classes = k.classes) (c : ClassId) (name : String) :
    h.method? c name = k.method? c name := by
  rw [method?, method?, same]
  exact methodWithin_congr same name _ c

end Congruence

end Heap

end Lox
