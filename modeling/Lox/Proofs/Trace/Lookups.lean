import Lox.Proofs.Scope.Regular
import Lox.Proofs.Trace.Moments

/-!
# What holds where an occurrence is looked up

The environments of the machine correspond to the scopes that the resolver saw around the occurrence,
one by one from the innermost outwards. Around `this` and `super` the innermost method tells whose
instance and whose superclass the environments hold.
-/

namespace Lox

/-- Class `declarer` is class `c` or one of the classes above it. -/
inductive Heap.Inherits (h : Heap) : ClassId → ClassId → Prop where
  | refl (c : ClassId) : h.Inherits c c
  | step {c parent declarer : ClassId} :
      (h.classAt c).superclass = some parent → h.Inherits parent declarer → h.Inherits c declarer

theorem Heap.Inherits.parent {h : Heap} {c declarer parent : ClassId}
    (inherits : h.Inherits c declarer) (above : (h.classAt declarer).superclass = some parent) :
    h.Inherits c parent := by
  induction inherits with
  | refl c => exact .step above (.refl parent)
  | step first _ inductionHypothesis => exact .step first (inductionHypothesis above)

/--
The chain of environments corresponds to the levels: each holds the names that are complete, except
that the innermost may lack the pending one, and no name that its scope does not declare.
-/
def Heap.Corresponds (h : Heap) (globals : EnvironmentId) :
    (pending : Option String) → EnvironmentId → List Level → Prop
  | _, e, [] => e = globals ∧ (h.environmentAt e).enclosing = none
  | pending, e, level :: outer =>
    (∀ x, level.scope.find? x = some true →
      pending = some x ∨ (h.environmentAt e).names.contains x = true) ∧
    (∀ x, (h.environmentAt e).names.contains x = true → x ∈ level.origin.names) ∧
    ∃ next, (h.environmentAt e).enclosing = some next ∧ h.Corresponds globals none next outer

/--
The innermost method around the levels, and what the account of the run tells of it: the call that
made its frame, the binding that made the function called, and the declaration of its class.
-/
structure Anchor where
  inner : List Level
  outer : List Level
  method : Function
  text : ClassText
  frame : EnvironmentId
  /-- The function that was called. -/
  called : FunctionId
  /-- The environment of `this`. -/
  within : EnvironmentId
  object : InstanceId
  /-- The method in the table of its class. -/
  unbound : FunctionId
  /-- The environment that the methods of the class close over. -/
  around : EnvironmentId
  parent : Option ClassId
  declarer : ClassId

/-- The account of the run, the machine and the levels agree on the method around the place. -/
structure Anchor.Holds (a : Anchor) (earlier : List Moment) (m : Machine) (levels : List Level) :
    Prop where
  method : MethodAround levels a.inner a.outer a.method a.text
  frame : m.heap.ancestor? m.current a.inner.length = some a.frame
  called : .called a.called a.frame ∈ earlier
  calledText : (m.heap.functionAt a.called).declaration = a.method
  calledWithin : (m.heap.functionAt a.called).environment = a.within
  within : m.heap.ancestor? m.current (a.inner.length + 1) = some a.within
  this : (m.heap.environmentAt a.within).names.find? "this" = some (.instance a.object)
  bound : .bound a.unbound a.object a.called ∈ earlier
  unboundText : (m.heap.functionAt a.unbound).declaration = a.method
  unboundAround : (m.heap.functionAt a.unbound).environment = a.around
  around : m.heap.ancestor? m.current (a.inner.length + 2) = some a.around
  declared : .declared a.text a.parent a.around a.declarer ∈ earlier
  inherits : m.heap.Inherits (m.heap.instanceAt a.object).ofClass a.declarer
  hasParent : a.parent.isSome = a.text.superclass.isSome
  parent : ∀ c, a.parent = some c →
    (m.heap.environmentAt a.around).names.find? "super" = some (.class c) ∧
      (m.heap.classAt a.declarer).superclass = some c

/-- The name that the resolver takes for complete before the interpreter defines it. -/
def Visit.pending? (v : Visit) : Option String :=
  match v.subject with
  | .superclass className _ => some className.lexeme
  | _ => none

/-- Every name of the scope is complete. -/
def Scope.Settled (scope : Scope) : Prop :=
  ∀ x, scope.contains x = true → scope.find? x = some true

/-- The occurrence is looked up by the machine just where the resolver came to it at the visit. -/
structure Visit.LookedUp (v : Visit) (earlier : List Moment) (form : MentionForm) (o : Occurrence)
    (m : Machine) : Prop where
  mention : v.mention? = some (form, o)
  distance : m.distances.find? o.id = v.place.distance? o.name
  chain : m.heap.Corresponds m.globals v.pending? m.current v.place.levels
  /-- The innermost environment holds no name that is not complete yet. -/
  exact : ∀ level ∈ v.place.levels.head?, ∀ x,
    (m.heap.environmentAt m.current).names.contains x = true → level.scope.find? x = some true
  tail : ∀ level ∈ v.place.levels.tail, level.scope.Settled
  anchor : form = .this ∨ form = .super →
    ∃ a : Anchor, a.Holds earlier m v.place.levels

/-- What an account tells of a lookup is right, given what it told before. -/
def Moment.Good (V : Visit → Prop) (earlier : List Moment) : Moment → Prop
  | .mention form o m => ∃ v, V v ∧ v.LookedUp earlier form o m
  | _ => True

/-- An account, the latest moment first, that is right about every lookup. -/
def Chronicled (V : Visit → Prop) : List Moment → Prop
  | [] => True
  | m :: earlier => m.Good V earlier ∧ Chronicled V earlier

theorem Chronicled.mono {V V' : Visit → Prop} (more : ∀ v, V v → V' v) {moments : List Moment}
    (chronicled : Chronicled V moments) : Chronicled V' moments := by
  induction moments with
  | nil => trivial
  | cons m earlier inductionHypothesis =>
    refine ⟨?_, inductionHypothesis chronicled.2⟩
    cases m with
    | mention form o machine =>
      obtain ⟨v, visited, lookedUp⟩ := chronicled.1
      exact ⟨v, more v visited, lookedUp⟩
    | _ => trivial

theorem Chronicled.good {V : Visit → Prop} {later earlier : List Moment} {m : Moment}
    (chronicled : Chronicled V (later ++ m :: earlier)) : m.Good V earlier := by
  induction later with
  | nil => exact chronicled.1
  | cons _ _ inductionHypothesis => exact inductionHypothesis chronicled.2

end Lox
