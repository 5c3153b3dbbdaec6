import Lox.Evaluation.Call

/-!
# Access to names

What a machine does to look a name up or to assign to it, as one equation for a local name and one for
a global.
-/

namespace Lox

/-! ## On the heap -/

namespace Heap

variable {h : Heap} {e a : EnvironmentId}

/-- The globals are the last environment of every chain: a name is held there or nowhere. -/
theorem holder_outermost (inBounds : e.index < h.environments.size)
    (outermost : (h.environmentAt e).enclosing = none) (mention : Occurrence) :
    h.holder e mention =
      if (h.environmentAt e).names.contains mention.name then .ok e
      else .error ⟨.undefinedVariable mention.name, mention⟩ := by
  obtain ⟨fuel, size⟩ := Nat.exists_eq_succ_of_ne_zero (Nat.ne_of_gt (Nat.zero_lt_of_lt inBounds))
  rw [holder, holder?, size, holderWithin, outermost]
  cases (h.environmentAt e).names.contains mention.name <;> rfl

theorem lookUp_outermost (inBounds : e.index < h.environments.size)
    (outermost : (h.environmentAt e).enclosing = none) (mention : Occurrence) :
    h.lookUp e mention =
      match (h.environmentAt e).names.find? mention.name with
      | some value => .ok value
      | none => .error ⟨.undefinedVariable mention.name, mention⟩ := by
  rw [lookUp, holder_outermost inBounds outermost, Table.contains]
  cases found : (h.environmentAt e).names.find? mention.name with
  | none => rfl
  | some value =>
    rw [Option.isSome_some, if_pos rfl]
    change Except.ok (h.valueIn e mention.name) = .ok value
    rw [valueIn, found, Option.getD_some]

/-- The environment in which a name is just now being defined holds it. -/
theorem holder_here (inBounds : e.index < h.environments.size) {mention : Occurrence}
    (here : (h.environmentAt e).names.contains mention.name = true) :
    h.holder e mention = .ok e := by
  obtain ⟨fuel, size⟩ := Nat.exists_eq_succ_of_ne_zero (Nat.ne_of_gt (Nat.zero_lt_of_lt inBounds))
  rw [holder, holder?, size, holderWithin, if_pos here]

theorem holderAt_of_ancestor {distance : Int} (found : h.ancestor? e distance.toNat = some a)
    (name : String) :
    h.holderAt e distance name =
      if (h.environmentAt a).names.contains name then .ok a
      else .error (.unresolvedBinding name distance) := by
  rw [holderAt, ancestor, found]
  rfl

theorem lookUpAt_of_ancestor {distance : Int} (found : h.ancestor? e distance.toNat = some a)
    (name : String) :
    h.lookUpAt e distance name =
      match (h.environmentAt a).names.find? name with
      | some value => .ok value
      | none => .error (.unresolvedBinding name distance) := by
  rw [lookUpAt, holderAt_of_ancestor found, Table.contains]
  cases there : (h.environmentAt a).names.find? name with
  | none => rfl
  | some value =>
    rw [Option.isSome_some, if_pos rfl]
    change Except.ok (h.valueIn a name) = .ok value
    rw [valueIn, there, Option.getD_some]

theorem lookUpAt_of_found {distance : Int} (found : h.ancestor? e distance.toNat = some a)
    {name : String} {value : Value} (there : (h.environmentAt a).names.find? name = some value) :
    h.lookUpAt e distance name = .ok value := by
  rw [lookUpAt_of_ancestor found, there]

end Heap

/-! ## On a machine -/

namespace Run

variable {m : Machine} {o : Occurrence}

/-- A run that starts with a step that yields a value goes on with it. -/
theorem bind_of_ok {α β : Type} {run : Run α} {f : α → Run β} {a : α} {m' : Machine}
    (ran : run m = .ok a m') : (run >>= f) m = f a m' := by
  rw [show (run >>= f) m = EStateM.bind run f m from rfl, EStateM.bind, ran]

theorem distance?_eq (o : Occurrence) (m : Machine) :
    distance? o m = .ok (m.distances.find? o.id) m := rfl

theorem ask_eq {α : Type} (f : Heap → α) (m : Machine) : ask f m = .ok (f m.heap) m := rfl

theorem lookUp_local {d : Nat} (recorded : m.distances.find? o.id = some d) :
    lookUp o m = ofInternal (m.heap.lookUpAt m.current d o.name) m := by
  rw [lookUp, show distance? o = fun m => .ok (m.distances.find? o.id) m from rfl]
  simp only [bind, EStateM.bind, recorded]
  rfl

theorem lookUp_global (unrecorded : m.distances.find? o.id = none) :
    lookUp o m = ofRuntime (m.heap.lookUp m.globals o) m := by
  rw [lookUp, show distance? o = fun m => .ok (m.distances.find? o.id) m from rfl]
  simp only [bind, EStateM.bind, unrecorded]
  rfl

theorem assign_local {d : Nat} (recorded : m.distances.find? o.id = some d) (value : Value) :
    assign o value m =
      match m.heap.holderAt m.current d o.name with
      | .ok e => .ok () { m with heap := m.heap.define e o.name value }
      | .error fault => .error (.internal fault) m := by
  rw [assign, show distance? o = fun m => .ok (m.distances.find? o.id) m from rfl]
  simp only [bind, EStateM.bind, recorded, current, ask]
  cases m.heap.holderAt m.current d o.name <;> rfl

theorem assign_global (unrecorded : m.distances.find? o.id = none) (value : Value) :
    assign o value m =
      match m.heap.holder m.globals o with
      | .ok e => .ok () { m with heap := m.heap.define e o.name value }
      | .error fault => .error (.failed fault) m := by
  rw [assign, show distance? o = fun m => .ok (m.distances.find? o.id) m from rfl]
  simp only [bind, EStateM.bind, unrecorded, globals, ask]
  cases m.heap.holder m.globals o <;> rfl

end Run

end Lox
