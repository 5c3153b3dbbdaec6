import Lox.Proofs.Lockstep.Relation

/-!
# Objects that are alike

The operations that look at no environment give the same answer on a heap and on the objects of a
store that are like those of the heap.
-/

namespace Lox

open Lexical (Store)

namespace Heap.Alike

variable {h : Heap} {s : Store} (alike : h.Alike s)
include alike

theorem text (f : FunctionId) :
    (s.functionAt f).declaration = (h.functionAt f).declaration ∧
      (s.functionAt f).isInitializer = (h.functionAt f).isInitializer := by
  have left := getD_map s.functions default (fun f => (f.declaration, f.isInitializer)) f.index
  have right := getD_map h.functions default (fun f => (f.declaration, f.isInitializer)) f.index
  rw [alike.functions] at left
  exact Prod.ext_iff.1 (left.symm.trans right)

theorem declaration (f : FunctionId) :
    (s.objects.functionAt f).declaration = (h.functionAt f).declaration := by
  have mapped := getD_map s.functions default
    (fun f => (⟨f.declaration, default, f.isInitializer⟩ : Closure)) f.index
  rw [← (alike.text f).1]
  exact congrArg Closure.declaration mapped

theorem method? (c : ClassId) (name : String) : s.objects.method? c name = h.method? c name :=
  method?_congr alike.classes c name

theorem nativeAt (n : NativeId) : s.objects.nativeAt n = h.nativeAt n := by
  rw [Heap.nativeAt, Heap.nativeAt, Store.objects, alike.natives]

theorem classAt (c : ClassId) : s.objects.classAt c = h.classAt c := by
  rw [Heap.classAt, Heap.classAt, Store.objects, alike.classes]

theorem instanceAt (i : InstanceId) : s.objects.instanceAt i = h.instanceAt i := by
  rw [Heap.instanceAt, Heap.instanceAt, Store.objects, alike.instances]

theorem member (i : InstanceId) (key : Occurrence) : s.objects.member i key = h.member i key := by
  simp only [Heap.member, alike.instanceAt, alike.method?]

theorem arity? (value : Value) : s.objects.arity? value = h.arity? value := by
  cases value with
  | native n => simp only [Heap.arity?, alike.nativeAt]
  | function f => simp only [Heap.arity?, alike.declaration]
  | «class» c => simp only [Heap.arity?, Heap.classArity, alike.method?, alike.declaration]
  | _ => rfl

theorem display (value : Value) : s.objects.display value = h.display value := by
  cases value with
  | function f => simp only [Heap.display, alike.declaration]
  | «class» c => simp only [Heap.display, alike.classAt]
  | «instance» i => simp only [Heap.display, alike.classAt, alike.instanceAt]
  | _ => rfl

end Heap.Alike

/-! ## Methods of known classes -/

/-- A method that is found belongs to a class on the chain of superclasses. -/
theorem World.Real.methodWithin {V : Visit → Prop} {W : World} {h : Heap} {s : Store}
    (sound : W.Sound V) (real : W.Real h s) {name : String} {f : FunctionId} :
    ∀ (fuel : Nat) (c : ClassId) (fact : ClassFact), W.classes c = some fact →
      h.methodWithin name fuel c = some f → ∃ declarer fact', W.Inherits c declarer ∧
        W.classes declarer = some fact' ∧ fact'.methods.find? name = some f := by
  intro fuel
  induction fuel with
  | zero => rintro _ _ _ ⟨⟩
  | succ fuel inductionHypothesis =>
    intro c fact known found
    -- The world knows the methods of each class on the chain, so both searches climb it alike.
    rw [Heap.methodWithin, (real.classes c fact known).2] at found
    cases here : fact.methods.find? name with
    | some method =>
      simp only [here, Option.some.injEq] at found
      exact ⟨c, fact, .refl c, known, found ▸ here⟩
    | none =>
      simp only [here] at found
      cases above : fact.parent with
      | none =>
        rw [above] at found
        cases found
      | some parent =>
        simp only [above] at found
        obtain ⟨fact', parentKnown⟩ := ((sound.classes c fact known).parent parent above).1
        obtain ⟨declarer, declarerFact, inherits, rest⟩ :=
          inductionHypothesis parent fact' parentKnown found
        exact ⟨declarer, declarerFact, .step known above inherits, rest⟩

end Lox
