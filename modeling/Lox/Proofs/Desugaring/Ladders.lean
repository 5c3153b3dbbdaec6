import Lox.Proofs.Desugaring.Renumbering
import Lox.Scope.Distances

/-!
# Ladders

Two runs of a text may work on chains of environments of which one has an empty environment where the
other has none. A ladder compares the two chains from the innermost environments on. A tree shifts along
a ladder if its mentions, in two versions with distances of their own, lead to environments that
correspond.
-/

namespace Lox

/-! ## Rungs -/

/-- A step outward along two chains of environments. -/
inductive Rung where
  /-- Both chains have an environment here, and these have the same names. -/
  | common
  /-- Only the first chain has an environment here, and it is empty. -/
  | left
  /-- Only the second chain has an environment here, and it is empty. -/
  | right

/-- How the inner parts of two chains compare, the innermost first. Further out the chains are one. -/
abbrev Ladder := List Rung

namespace Ladder

/-- The distances lead to environments that correspond. -/
inductive Aligned : Ladder → Nat → Nat → Prop where
  | outside (d : Nat) : Aligned [] d d
  | here {l : Ladder} : Aligned (.common :: l) 0 0
  | common {l : Ladder} {d d' : Nat} : Aligned l d d' → Aligned (.common :: l) (d + 1) (d' + 1)
  | left {l : Ladder} {d d' : Nat} : Aligned l d d' → Aligned (.left :: l) (d + 1) d'
  | right {l : Ladder} {d d' : Nat} : Aligned l d d' → Aligned (.right :: l) d (d' + 1)

/-- The innermost environments correspond, so that what is defined there is defined in both. -/
def Open (l : Ladder) : Prop := l.Aligned 0 0

/-- No environment is missing in either chain. -/
def Even (l : Ladder) : Prop := ∀ d, l.Aligned d d

theorem Even.open {l : Ladder} (even : l.Even) : l.Open := even 0

theorem even_nil : Even [] := .outside

theorem Even.cons {l : Ladder} (even : l.Even) : Even (.common :: l) := by
  intro d
  cases d with
  | zero => exact .here
  | succ d => exact .common (even d)

/-- The ladder inside the scope for a superclass, if there is one. -/
def inner (superclass : Option Occurrence) (l : Ladder) : Ladder :=
  match superclass with
  | none => l
  | some _ => .common :: l

theorem Even.inner {l : Ladder} (even : l.Even) (superclass : Option Occurrence) :
    (Ladder.inner superclass l).Even := by
  cases superclass with
  | none => exact even
  | some => exact even.cons

end Ladder

/-! ## Trees that shift -/

/-- The distances of the occurrences of a text, and those of the text with other numbers. -/
structure Versions where
  distances : Distances
  distances' : Distances

section Shifts

variable (V : Versions) (r : Nat → Nat) (l : Ladder)

/-- The distances of the mention are related in the two versions. -/
def Occurrence.Shifts (related : Nat → Nat → Prop) (o : Occurrence) : Prop :=
  Option.Rel related (V.distances.find? o.id) (V.distances'.find? (r o.id))

/-- The distances lead to a superclass and, one step before it, to an instance. -/
def Ladder.SuperAligned (d d' : Nat) : Prop := l.Aligned d d' ∧ l.Aligned (d - 1) (d' - 1)

mutual

def Expr.Shifts : Expr → Prop
  | .literal _ => True
  | .grouping inner => inner.Shifts
  | .name target => target.Shifts V r l.Aligned
  | .assign target value => value.Shifts ∧ target.Shifts V r l.Aligned
  | .unary _ operand => operand.Shifts
  | .binary left _ right => left.Shifts ∧ right.Shifts
  | .logical left _ right => left.Shifts ∧ right.Shifts
  | .call callee _ arguments => callee.Shifts ∧ Expr.AllShift arguments
  | .get object _ => object.Shifts
  | .set object _ value => value.Shifts ∧ object.Shifts
  | .this keyword => keyword.Shifts V r l.Aligned
  | .super keyword _ => keyword.Shifts V r l.SuperAligned

def Expr.AllShift : List Expr → Prop
  | [] => True
  | e :: rest => e.Shifts ∧ Expr.AllShift rest

end

end Shifts

section Shifts

variable (V : Versions) (r : Nat → Nat)

mutual

/-- Declarations stand only where the innermost environments correspond. -/
def Stmt.Shifts : Ladder → Stmt → Prop
  | l, .expression value => value.Shifts V r l
  | l, .print value => value.Shifts V r l
  | l, .var _ none => l.Open
  | l, .var _ (some initializer) => l.Open ∧ initializer.Shifts V r l
  | l, .block body => Stmt.AllShift (.common :: l) body
  | l, .ite condition thenBranch none => condition.Shifts V r l ∧ thenBranch.Shifts l
  | l, .ite condition thenBranch (some elseBranch) =>
    condition.Shifts V r l ∧ thenBranch.Shifts l ∧ elseBranch.Shifts l
  | l, .while condition body => condition.Shifts V r l ∧ body.Shifts l
  | l, .function declaration => l.Open ∧ declaration.Shifts l
  | _, .return _ none => True
  | l, .return _ (some value) => value.Shifts V r l
  | l, .class _ superclass methods =>
    l.Open ∧ (∀ o ∈ superclass, o.Shifts V r l.Aligned) ∧
      Function.AllShift (.common :: l.inner superclass) methods

def Stmt.AllShift : Ladder → List Stmt → Prop
  | _, [] => True
  | l, s :: rest => s.Shifts l ∧ Stmt.AllShift l rest

/-- The function is declared in the innermost environments. -/
def Function.Shifts : Ladder → Function → Prop
  | l, .mk _ _ body => Stmt.AllShift (.common :: l) body

def Function.AllShift : Ladder → List Function → Prop
  | _, [] => True
  | l, f :: rest => f.Shifts l ∧ Function.AllShift l rest

end

end Shifts

/-! ### Along even ladders -/

/-- Both versions have the same distances for what the subjects mention. -/
def Versions.Agree (V : Versions) (subjects : List Subject) : Prop :=
  ∀ n ∈ Subject.ids subjects, V.distances'.find? n = V.distances.find? n

section Even

variable {V : Versions} {l : Ladder}

theorem Versions.Agree.split {left right : List Subject} (agree : V.Agree (left ++ right)) :
    V.Agree left ∧ V.Agree right := by
  have append : Subject.ids (left ++ right) = Subject.ids left ++ Subject.ids right :=
    List.filterMap_append
  rw [Versions.Agree, append] at agree
  exact List.forall_mem_append.1 agree

theorem Versions.Agree.tail {x : Subject} {subjects : List Subject}
    (agree : V.Agree (x :: subjects)) : V.Agree subjects :=
  (show V.Agree ([x] ++ subjects) from agree).split.2

theorem Versions.Agree.occurrence {x : Subject} (agree : V.Agree [x])
    {related : Nat → Nat → Prop} (even : ∀ d, related d d) {form : MentionForm} {o : Occurrence}
    (mention : x.mention? = some (form, o)) : o.Shifts V id related := by
  have same := agree o.id (by simp [Subject.ids, mention])
  rw [Occurrence.Shifts, id_eq, same]
  cases V.distances.find? o.id with
  | none => exact .none
  | some d => exact .some (even d)

mutual

theorem Expr.shifts_of_agree (even : l.Even) (e : Expr) (agree : V.Agree e.subjects) :
    e.Shifts V id l := by
  cases e with
  | literal => trivial
  | grouping inner => exact inner.shifts_of_agree even agree
  | name target => exact agree.occurrence even rfl
  | assign target value =>
    obtain ⟨inValue, inTarget⟩ := agree.split
    exact ⟨value.shifts_of_agree even inValue, inTarget.occurrence even rfl⟩
  | unary operator operand => exact operand.shifts_of_agree even agree
  | binary left operator right | logical left operator right =>
    obtain ⟨inLeft, inRight⟩ := agree.split
    exact ⟨left.shifts_of_agree even inLeft, right.shifts_of_agree even inRight⟩
  | call callee paren arguments =>
    obtain ⟨inCallee, inArguments⟩ := agree.split
    exact ⟨callee.shifts_of_agree even inCallee, Expr.allShift_of_agree even arguments inArguments⟩
  | get object property => exact object.shifts_of_agree even agree
  | set object property value =>
    obtain ⟨inValue, inObject⟩ := agree.split
    exact ⟨value.shifts_of_agree even inValue, object.shifts_of_agree even inObject⟩
  | this keyword => exact agree.occurrence even rfl
  | super keyword method => exact agree.occurrence (fun d => ⟨even d, even (d - 1)⟩) rfl

theorem Expr.allShift_of_agree (even : l.Even) (es : List Expr)
    (agree : V.Agree (Expr.allSubjects es)) : Expr.AllShift V id l es := by
  cases es with
  | nil => trivial
  | cons e rest =>
    obtain ⟨here, later⟩ := agree.split
    exact ⟨e.shifts_of_agree even here, Expr.allShift_of_agree even rest later⟩

end

mutual

theorem Stmt.shifts_of_agree {l : Ladder} (even : l.Even) (s : Stmt) (agree : V.Agree s.subjects) :
    s.Shifts V id l := by
  match s with
  | .expression value | .print value => exact value.shifts_of_agree even agree
  | .var name none => exact even.open
  | .var name (some initializer) =>
    exact ⟨even.open, initializer.shifts_of_agree even agree.tail⟩
  | .block body => exact Stmt.allShift_of_agree even.cons body agree
  | .ite condition thenBranch none =>
    obtain ⟨inCondition, inThen⟩ := agree.split
    exact ⟨condition.shifts_of_agree even inCondition, Stmt.shifts_of_agree even thenBranch inThen⟩
  | .ite condition thenBranch (some elseBranch) =>
    obtain ⟨inBoth, inElse⟩ := agree.split
    obtain ⟨inCondition, inThen⟩ := inBoth.split
    exact ⟨condition.shifts_of_agree even inCondition, Stmt.shifts_of_agree even thenBranch inThen,
      Stmt.shifts_of_agree even elseBranch inElse⟩
  | .while condition body =>
    obtain ⟨inCondition, inBody⟩ := agree.split
    exact ⟨condition.shifts_of_agree even inCondition, Stmt.shifts_of_agree even body inBody⟩
  | .function declaration =>
    exact ⟨even.open, Function.shifts_of_agree even declaration agree.tail⟩
  | .return keyword none => trivial
  | .return keyword (some value) => exact value.shifts_of_agree even agree.tail
  | .class name superclass methods =>
    obtain ⟨inHead, inMethods⟩ := agree.split
    refine ⟨even.open, ?_, Function.allShift_of_agree (even.inner superclass).cons methods inMethods⟩
    rintro o here
    obtain rfl := Option.mem_def.1 here
    exact inHead.tail.occurrence even rfl

theorem Stmt.allShift_of_agree {l : Ladder} (even : l.Even) (ss : List Stmt)
    (agree : V.Agree (Stmt.allSubjects ss)) : Stmt.AllShift V id l ss := by
  cases ss with
  | nil => trivial
  | cons s rest =>
    obtain ⟨here, later⟩ := agree.split
    exact ⟨Stmt.shifts_of_agree even s here, Stmt.allShift_of_agree even rest later⟩

theorem Function.shifts_of_agree {l : Ladder} (even : l.Even) (f : Function)
    (agree : V.Agree f.subjects) : f.Shifts V id l := by
  cases f with
  | mk name parameters body =>
    exact Stmt.allShift_of_agree even.cons body agree.split.2

theorem Function.allShift_of_agree {l : Ladder} (even : l.Even) (fs : List Function)
    (agree : V.Agree (Function.allSubjects fs)) : Function.AllShift V id l fs := by
  cases fs with
  | nil => trivial
  | cons f rest =>
    obtain ⟨here, later⟩ := agree.split
    exact ⟨Function.shifts_of_agree even f here, Function.allShift_of_agree even rest later⟩

end

end Even

end Lox
