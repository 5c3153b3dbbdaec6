import Lox.Proofs.Scope.Subjects

/-!
# Texts with other numbers

The distances of a text are kept by the numbers of its occurrences. A second copy of the text that is to
have distances of its own has other numbers where a name is looked up, and is the same otherwise.
-/

namespace Lox

/-! ## Trees with other numbers -/

section Renumber

variable (r : Nat → Nat)

def Occurrence.renumber (o : Occurrence) : Occurrence := { o with id := r o.id }

mutual

def Expr.renumber : Expr → Expr
  | .literal value => .literal value
  | .grouping inner => .grouping inner.renumber
  | .name target => .name (target.renumber r)
  | .assign target value => .assign (target.renumber r) value.renumber
  | .unary operator operand => .unary operator operand.renumber
  | .binary left operator right => .binary left.renumber operator right.renumber
  | .logical left operator right => .logical left.renumber operator right.renumber
  | .call callee paren arguments => .call callee.renumber paren (Expr.renumberAll arguments)
  | .get object property => .get object.renumber property
  | .set object property value => .set object.renumber property value.renumber
  | .this keyword => .this (keyword.renumber r)
  | .super keyword method => .super (keyword.renumber r) method

def Expr.renumberAll : List Expr → List Expr
  | [] => []
  | e :: rest => e.renumber :: Expr.renumberAll rest

end

mutual

def Stmt.renumber : Stmt → Stmt
  | .expression value => .expression (value.renumber r)
  | .print value => .print (value.renumber r)
  | .var name none => .var name none
  | .var name (some initializer) => .var name (some (initializer.renumber r))
  | .block body => .block (Stmt.renumberAll body)
  | .ite condition thenBranch none => .ite (condition.renumber r) thenBranch.renumber none
  | .ite condition thenBranch (some elseBranch) =>
    .ite (condition.renumber r) thenBranch.renumber (some elseBranch.renumber)
  | .while condition body => .while (condition.renumber r) body.renumber
  | .function declaration => .function declaration.renumber
  | .return keyword none => .return keyword none
  | .return keyword (some value) => .return keyword (some (value.renumber r))
  | .class name superclass methods =>
    .class name (superclass.map (Occurrence.renumber r)) (Function.renumberAll methods)

def Stmt.renumberAll : List Stmt → List Stmt
  | [] => []
  | s :: rest => s.renumber :: Stmt.renumberAll rest

def Function.renumber : Function → Function
  | .mk name parameters body => .mk name parameters (Stmt.renumberAll body)

def Function.renumberAll : List Function → List Function
  | [] => []
  | f :: rest => f.renumber :: Function.renumberAll rest

end

variable {r}

@[simp] theorem Occurrence.name_renumber (o : Occurrence) : (o.renumber r).name = o.name := rfl

@[simp] theorem Function.name_renumber (f : Function) : (f.renumber r).name = f.name := by
  cases f
  rfl

@[simp] theorem Function.parameters_renumber (f : Function) :
    (f.renumber r).parameters = f.parameters := by
  cases f
  rfl

@[simp] theorem Function.body_renumber (f : Function) :
    (f.renumber r).body = Stmt.renumberAll r f.body := by
  cases f
  rfl

@[simp] theorem Function.isInitializer_renumber (f : Function) :
    (f.renumber r).isInitializer = f.isInitializer := by
  rw [isInitializer, name_renumber]
  rfl

@[simp] theorem Stmt.declared?_renumber (s : Stmt) : (s.renumber r).declared? = s.declared? := by
  cases s with
  | var name initializer => cases initializer <;> rfl
  | ite condition thenBranch elseBranch => cases elseBranch <;> rfl
  | «return» keyword value => cases value <;> rfl
  | function declaration => simp [Stmt.renumber, Stmt.declared?]
  | _ => rfl

end Renumber

/-! ## The same numbers -/

mutual

theorem Expr.renumber_id (e : Expr) : e.renumber id = e := by
  cases e with
  | literal | name | this | super => rfl
  | grouping inner => rw [renumber, inner.renumber_id]
  | assign target value => rw [renumber, value.renumber_id]; rfl
  | unary operator operand => rw [renumber, operand.renumber_id]
  | binary left operator right => rw [renumber, left.renumber_id, right.renumber_id]
  | logical left operator right => rw [renumber, left.renumber_id, right.renumber_id]
  | call callee paren arguments => rw [renumber, callee.renumber_id, Expr.renumberAll_id arguments]
  | get object property => rw [renumber, object.renumber_id]
  | set object property value => rw [renumber, object.renumber_id, value.renumber_id]

theorem Expr.renumberAll_id (es : List Expr) : Expr.renumberAll id es = es := by
  cases es with
  | nil => rfl
  | cons e rest => rw [renumberAll, e.renumber_id, Expr.renumberAll_id rest]

end

mutual

theorem Stmt.renumber_id (s : Stmt) : s.renumber id = s := by
  match s with
  | .expression value | .print value => rw [Stmt.renumber, value.renumber_id]
  | .var name none | .return keyword none => rw [Stmt.renumber]
  | .var name (some initializer) => rw [Stmt.renumber, initializer.renumber_id]
  | .block body => rw [Stmt.renumber, Stmt.renumberAll_id body]
  | .ite condition thenBranch none =>
    rw [Stmt.renumber, condition.renumber_id, Stmt.renumber_id thenBranch]
  | .ite condition thenBranch (some elseBranch) =>
    rw [Stmt.renumber, condition.renumber_id, Stmt.renumber_id thenBranch, Stmt.renumber_id elseBranch]
  | .while condition body => rw [Stmt.renumber, condition.renumber_id, Stmt.renumber_id body]
  | .function declaration => rw [Stmt.renumber, Function.renumber_id declaration]
  | .return keyword (some value) => rw [Stmt.renumber, value.renumber_id]
  | .class name superclass methods =>
    rw [Stmt.renumber, Function.renumberAll_id methods]
    cases superclass <;> rfl

theorem Stmt.renumberAll_id (ss : List Stmt) : Stmt.renumberAll id ss = ss := by
  cases ss with
  | nil => rfl
  | cons s rest => rw [Stmt.renumberAll, Stmt.renumber_id s, Stmt.renumberAll_id rest]

theorem Function.renumber_id (f : Function) : f.renumber id = f := by
  cases f with
  | mk name parameters body => rw [Function.renumber, Stmt.renumberAll_id body]

theorem Function.renumberAll_id (fs : List Function) : Function.renumberAll id fs = fs := by
  cases fs with
  | nil => rfl
  | cons f rest => rw [Function.renumberAll, Function.renumber_id f, Function.renumberAll_id rest]

end

/-! ## Subjects -/

def Subject.renumber (r : Nat → Nat) : Subject → Subject
  | .declaration name => .declaration name
  | .mention form m => .mention form (m.renumber r)
  | .superclass className m => .superclass className (m.renumber r)
  | .result keyword hasValue => .result keyword hasValue

section Subjects

variable {r : Nat → Nat}

theorem Subject.spelled_renumber {x : Subject} (spelled : x.Spelled) : (x.renumber r).Spelled := by
  cases x with
  | mention form m => cases form <;> exact spelled
  | _ => exact spelled

theorem Subject.ids_renumber (subjects : List Subject) :
    Subject.ids (subjects.map (Subject.renumber r)) = (Subject.ids subjects).map r := by
  rw [ids, ids, List.filterMap_map, List.map_filterMap]
  congr 1
  funext x
  cases x <;> rfl

mutual

theorem Expr.subjects_renumber (e : Expr) :
    (e.renumber r).subjects = e.subjects.map (Subject.renumber r) := by
  cases e with
  | literal | name | this | super => rfl
  | grouping inner => exact inner.subjects_renumber
  | assign target value =>
    simp [renumber, subjects, value.subjects_renumber, Subject.renumber]
  | unary operator operand => exact operand.subjects_renumber
  | binary left operator right | logical left operator right =>
    simp [renumber, subjects, left.subjects_renumber, right.subjects_renumber]
  | call callee paren arguments =>
    simp [renumber, subjects, callee.subjects_renumber, Expr.allSubjects_renumber arguments]
  | get object property => exact object.subjects_renumber
  | set object property value =>
    simp [renumber, subjects, value.subjects_renumber, object.subjects_renumber]

theorem Expr.allSubjects_renumber (es : List Expr) :
    Expr.allSubjects (Expr.renumberAll r es) = (Expr.allSubjects es).map (Subject.renumber r) := by
  cases es with
  | nil => rfl
  | cons e rest =>
    simp [renumberAll, allSubjects, e.subjects_renumber, Expr.allSubjects_renumber rest]

end

mutual

theorem Stmt.subjects_renumber (s : Stmt) :
    (s.renumber r).subjects = s.subjects.map (Subject.renumber r) := by
  match s with
  | .expression value | .print value => exact value.subjects_renumber
  | .var name none | .return keyword none => rfl
  | .var name (some initializer) =>
    simp [Stmt.renumber, Stmt.subjects, initializer.subjects_renumber, Subject.renumber]
  | .block body => exact Stmt.allSubjects_renumber body
  | .ite condition thenBranch none =>
    simp [Stmt.renumber, Stmt.subjects, condition.subjects_renumber,
      Stmt.subjects_renumber thenBranch]
  | .ite condition thenBranch (some elseBranch) =>
    simp [Stmt.renumber, Stmt.subjects, condition.subjects_renumber,
      Stmt.subjects_renumber thenBranch, Stmt.subjects_renumber elseBranch]
  | .while condition body =>
    simp [Stmt.renumber, Stmt.subjects, condition.subjects_renumber, Stmt.subjects_renumber body]
  | .function declaration =>
    simp [Stmt.renumber, Stmt.subjects, Function.subjects_renumber declaration, Subject.renumber]
  | .return keyword (some value) =>
    simp [Stmt.renumber, Stmt.subjects, value.subjects_renumber, Subject.renumber]
  | .class name superclass methods =>
    cases superclass <;>
      simp [Stmt.renumber, Stmt.subjects, Function.allSubjects_renumber methods, Subject.renumber]

theorem Stmt.allSubjects_renumber (ss : List Stmt) :
    Stmt.allSubjects (Stmt.renumberAll r ss) = (Stmt.allSubjects ss).map (Subject.renumber r) := by
  cases ss with
  | nil => rfl
  | cons s rest =>
    simp [Stmt.renumberAll, Stmt.allSubjects, Stmt.subjects_renumber s,
      Stmt.allSubjects_renumber rest]

theorem Function.subjects_renumber (f : Function) :
    (f.renumber r).subjects = f.subjects.map (Subject.renumber r) := by
  cases f with
  | mk name parameters body =>
    simp [Function.renumber, Function.subjects, Stmt.allSubjects_renumber body, Subject.renumber,
      Function.comp_def]

theorem Function.allSubjects_renumber (fs : List Function) :
    Function.allSubjects (Function.renumberAll r fs) =
      (Function.allSubjects fs).map (Subject.renumber r) := by
  cases fs with
  | nil => rfl
  | cons f rest =>
    simp [Function.renumberAll, Function.allSubjects, Function.subjects_renumber f,
      Function.allSubjects_renumber rest]

end

/-! ## Placement -/

mutual

theorem Stmt.wellPlaced_renumber (s : Stmt) (placed : s.WellPlaced) : (s.renumber r).WellPlaced := by
  match s with
  | .expression _ | .print _ | .var _ none | .var _ (some _) | .return _ none | .return _ (some _) =>
    trivial
  | .block body => exact Stmt.allWellPlaced_renumber body placed
  | .ite condition thenBranch none =>
    rw [Stmt.WellPlaced] at placed
    exact ⟨thenBranch.declared?_renumber.trans placed.1,
      Stmt.wellPlaced_renumber thenBranch placed.2⟩
  | .ite condition thenBranch (some elseBranch) =>
    rw [Stmt.WellPlaced] at placed
    obtain ⟨⟨silentThen, placedThen⟩, silentElse, placedElse⟩ := placed
    exact ⟨⟨thenBranch.declared?_renumber.trans silentThen,
      Stmt.wellPlaced_renumber thenBranch placedThen⟩,
      elseBranch.declared?_renumber.trans silentElse,
      Stmt.wellPlaced_renumber elseBranch placedElse⟩
  | .while condition body =>
    rw [Stmt.WellPlaced] at placed
    exact ⟨body.declared?_renumber.trans placed.1, Stmt.wellPlaced_renumber body placed.2⟩
  | .function declaration => exact Function.wellPlaced_renumber declaration placed
  | .class name superclass methods => exact Function.allWellPlaced_renumber methods placed

theorem Stmt.allWellPlaced_renumber (ss : List Stmt) (placed : Stmt.AllWellPlaced ss) :
    Stmt.AllWellPlaced (Stmt.renumberAll r ss) := by
  cases ss with
  | nil => trivial
  | cons s rest =>
    exact ⟨Stmt.wellPlaced_renumber s placed.1, Stmt.allWellPlaced_renumber rest placed.2⟩

theorem Function.wellPlaced_renumber (f : Function) (placed : f.WellPlaced) :
    (f.renumber r).WellPlaced := by
  cases f with
  | mk name parameters body => exact Stmt.allWellPlaced_renumber body placed

theorem Function.allWellPlaced_renumber (fs : List Function) (placed : Function.AllWellPlaced fs) :
    Function.AllWellPlaced (Function.renumberAll r fs) := by
  cases fs with
  | nil => trivial
  | cons f rest =>
    exact ⟨Function.wellPlaced_renumber f placed.1, Function.allWellPlaced_renumber rest placed.2⟩

end

end Subjects

end Lox
