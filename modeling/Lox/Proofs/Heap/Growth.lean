import Lox.Proofs.Evaluation.Origins
import Lox.Proofs.Heap.Evolution
import Lox.Proofs.Scope.Subjects

/-!
# The heap only grows

An object that is on the heap stays there, and all of it that a program cannot assign to stays as it is.
Names and fields get new values but are never taken away. The implicit names `this` and `super` do not even
get new values as long as no node of the code gives them one.
-/

namespace Lox.Heap

variable {h h' h'' : Heap}

/-- The objects of the first heap are on the second, with nothing lost. -/
structure Retains (h h' : Heap) : Prop extends Preserves h h' where
  environmentCount : h.environments.size ≤ h'.environments.size
  enclosing : ∀ e : EnvironmentId, e.index < h.environments.size →
    (h'.environmentAt e).enclosing = (h.environmentAt e).enclosing
  names : ∀ (e : EnvironmentId) (name : String), e.index < h.environments.size →
    (h.environmentAt e).names.contains name = true → (h'.environmentAt e).names.contains name = true
  fields : ∀ (i : InstanceId) (name : String), i.index < h.instances.size →
    (h.instanceAt i).fields.contains name = true → (h'.instanceAt i).fields.contains name = true
  natives : h'.natives = h.natives

namespace Retains

theorem refl (h : Heap) : h.Retains h :=
  { Preserves.refl h with
    environmentCount := Nat.le_refl _
    enclosing := fun _ _ => rfl
    names := fun _ _ _ there => there
    fields := fun _ _ _ there => there
    natives := rfl }

theorem trans (first : h.Retains h') (second : h'.Retains h'') : h.Retains h'' :=
  { first.toPreserves.trans second.toPreserves with
    environmentCount := Nat.le_trans first.environmentCount second.environmentCount
    enclosing := fun e old =>
      (second.enclosing e (Nat.lt_of_lt_of_le old first.environmentCount)).trans (first.enclosing e old)
    names := fun e name old there =>
      second.names e name (Nat.lt_of_lt_of_le old first.environmentCount) (first.names e name old there)
    fields := fun i name old there =>
      second.fields i name (Nat.lt_of_lt_of_le old first.instanceCount) (first.fields i name old there)
    natives := second.natives.trans first.natives }

end Retains

/-! ## Single steps -/

theorem contains_define (h : Heap) (e o : EnvironmentId) (name other : String) (value : Value)
    (there : (h.environmentAt o).names.contains other = true) :
    ((h.define e name value).environmentAt o).names.contains other = true := by
  rw [Table.contains, find?_define]
  split
  · split
    · rfl
    · exact there
  · exact there

theorem contains_setField (h : Heap) (i j : InstanceId) (name other : String) (value : Value)
    (there : (h.instanceAt j).fields.contains other = true) :
    ((h.setField i name value).instanceAt j).fields.contains other = true := by
  rw [Table.contains, find?_setField]
  split
  · split
    · rfl
    · exact there
  · exact there

theorem Step.retains (step : h.Step h') : h.Retains h' := by
  have kept := step.preserves
  -- A step touches one kind of object, and all others are as they were.
  have same := Retains.refl h
  cases step with
  | newFunction | newClass => exact { kept, same with }
  | newEnvironment env =>
    exact { kept, same with
      environmentCount := by simp [Heap.newEnvironment]
      enclosing := fun e old => by rw [h.environmentAt_newEnvironment_old env old]
      names := fun e name old there => by rwa [h.environmentAt_newEnvironment_old env old] }
  | newInstance c =>
    exact { kept, same with
      fields := fun i name old there => by rwa [h.instanceAt_newInstance_old c old] }
  | define e name value =>
    exact { kept, same with
      environmentCount := (h.size_define e name value).ge
      enclosing := fun o _ => h.enclosing_define e o name value
      names := fun o other _ => h.contains_define e o name other value }
  | setField i name value =>
    exact { kept, same with
      fields := fun j other _ => h.contains_setField i j name other value }

/-! ## Runs -/

/-- Whatever a run does, the heap grows and the distances stay. -/
theorem retains_stable :
    Machine.Stable fun m m' => m.heap.Retains m'.heap ∧ m'.distances = m.distances where
  refl m := ⟨.refl m.heap, rfl⟩
  trans first second := ⟨first.1.trans second.1, second.2.trans first.2⟩
  heap _ _ step := ⟨step.retains, rfl⟩
  printed m _ := ⟨.refl m.heap, rfl⟩
  readings m := ⟨.refl m.heap, rfl⟩
  inside _ within := within

/-! ## The implicit names -/

/-- An implicit name that is bound in an environment keeps its value. -/
def KeepsImplicit (h h' : Heap) : Prop :=
  ∀ (e : EnvironmentId) (name : String) (value : Value), name = "this" ∨ name = "super" →
    (h.environmentAt e).names.find? name = some value →
    (h'.environmentAt e).names.find? name = some value

theorem KeepsImplicit.trans (first : h.KeepsImplicit h') (second : h'.KeepsImplicit h'') :
    h.KeepsImplicit h'' :=
  fun e name value implicit bound => second e name value implicit (first e name value implicit bound)

theorem not_isOrdinary {name : String} (implicit : name = "this" ∨ name = "super") :
    ¬IsOrdinary name :=
  fun ordinary => implicit.elim ordinary.1 ordinary.2

theorem keepsImplicit_newEnvironment (h : Heap) (env : Environment) :
    h.KeepsImplicit (h.newEnvironment env).2 := by
  intro e name value _ bound
  rwa [h.environmentAt_newEnvironment_old env (index_of_find? bound)]

theorem keepsImplicit_define (h : Heap) (e : EnvironmentId) {name : String} (value : Value)
    (ordinary : IsOrdinary name) : h.KeepsImplicit (h.define e name value) := by
  intro o other bound implicit found
  have different : name ≠ other := fun same => not_isOrdinary implicit (same ▸ ordinary)
  rw [find?_define, if_neg different, found, ite_self]

variable {P : Node → Prop}

/-- Nodes that define ordinary names only leave the implicit ones alone. -/
theorem StepBy.keepsImplicit (ordinary : ∀ node name, P node → node.Defines name → IsOrdinary name)
    (step : h.StepBy P h') : h.KeepsImplicit h' := by
  cases step with
  | newEnvironment env => exact h.keepsImplicit_newEnvironment env
  | define e value holds defines => exact h.keepsImplicit_define e value (ordinary _ _ holds defines)
  | newFunction | newClass | newInstance | setField => exact fun _ _ _ _ bound => bound

theorem StepsBy.keepsImplicit (ordinary : ∀ node name, P node → node.Defines name → IsOrdinary name)
    (steps : h.StepsBy P h') : h.KeepsImplicit h' := by
  induction steps with
  | refl => exact fun _ _ _ _ bound => bound
  | tail _ step inductionHypothesis => exact inductionHypothesis.trans (step.keepsImplicit ordinary)

end Lox.Heap
