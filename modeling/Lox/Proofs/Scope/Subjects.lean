import Lox.Proofs.Scope.Place

/-!
# The subjects of a program

The subjects of a tree are its parts that the resolver looks at, whatever the place of the tree. What
a parser guarantees of a tree is said of its subjects: the names are spelled as their kind of token
demands, no occurrence is used twice, and declarations stand in statement lists only.
-/

namespace Lox

/-! ## Subjects of trees -/

mutual

def Expr.subjects : Expr → List Subject
  | .literal _ => []
  | .grouping inner => inner.subjects
  | .name target => [.mention .variable target]
  | .assign target value => value.subjects ++ [.mention .assignment target]
  | .unary _ operand => operand.subjects
  | .binary left _ right => left.subjects ++ right.subjects
  | .logical left _ right => left.subjects ++ right.subjects
  | .call callee _ arguments => callee.subjects ++ Expr.allSubjects arguments
  | .get object _ => object.subjects
  | .set object _ value => value.subjects ++ object.subjects
  | .this keyword => [.mention .this keyword]
  | .super keyword _ => [.mention .super keyword]

def Expr.allSubjects : List Expr → List Subject
  | [] => []
  | e :: rest => e.subjects ++ Expr.allSubjects rest

end

mutual

def Stmt.subjects : Stmt → List Subject
  | .expression value => value.subjects
  | .print value => value.subjects
  | .var name none => [.declaration name]
  | .var name (some initializer) => .declaration name :: initializer.subjects
  | .block body => Stmt.allSubjects body
  | .ite condition thenBranch none => condition.subjects ++ thenBranch.subjects
  | .ite condition thenBranch (some elseBranch) =>
    condition.subjects ++ thenBranch.subjects ++ elseBranch.subjects
  | .while condition body => condition.subjects ++ body.subjects
  | .function declaration => .declaration declaration.name :: declaration.subjects
  | .return keyword none => [.result keyword false]
  | .return keyword (some value) => .result keyword true :: value.subjects
  | .class name superclass methods =>
    .declaration name.token :: (superclass.map (Subject.superclass name.token)).toList ++
      Function.allSubjects methods

def Stmt.allSubjects : List Stmt → List Subject
  | [] => []
  | s :: rest => s.subjects ++ Stmt.allSubjects rest

def Function.subjects : Function → List Subject
  | .mk _ parameters body => parameters.map .declaration ++ Stmt.allSubjects body

def Function.allSubjects : List Function → List Subject
  | [] => []
  | f :: rest => f.subjects ++ Function.allSubjects rest

end

theorem Expr.allSubjects_eq (es : List Expr) : Expr.allSubjects es = es.flatMap Expr.subjects := by
  induction es with
  | nil => rfl
  | cons e rest inductionHypothesis => simp [Expr.allSubjects, inductionHypothesis]

theorem Stmt.allSubjects_eq (ss : List Stmt) : Stmt.allSubjects ss = ss.flatMap Stmt.subjects := by
  induction ss with
  | nil => rfl
  | cons s rest inductionHypothesis => simp [Stmt.allSubjects, inductionHypothesis]

theorem Function.allSubjects_eq (fs : List Function) :
    Function.allSubjects fs = fs.flatMap Function.subjects := by
  induction fs with
  | nil => rfl
  | cons f rest inductionHypothesis => simp [Function.allSubjects, inductionHypothesis]

mutual

theorem Expr.map_subject_visits (p : Place) (e : Expr) :
    (e.visits p).map Visit.subject = e.subjects := by
  cases e with
  | literal | name | this | super => rfl
  | grouping inner => exact Expr.map_subject_visits p inner
  | unary operator operand => exact Expr.map_subject_visits p operand
  | get object property => exact Expr.map_subject_visits p object
  | assign target value =>
    simp [Expr.visits, Expr.subjects, Expr.map_subject_visits p value]
  | binary left operator right | logical left operator right =>
    simp [Expr.visits, Expr.subjects, Expr.map_subject_visits p left, Expr.map_subject_visits p right]
  | call callee paren arguments =>
    simp [Expr.visits, Expr.subjects, Expr.map_subject_visits p callee,
      Expr.map_subject_allVisits p arguments]
  | set object property value =>
    simp [Expr.visits, Expr.subjects, Expr.map_subject_visits p value,
      Expr.map_subject_visits p object]

theorem Expr.map_subject_allVisits (p : Place) (es : List Expr) :
    (Expr.allVisits p es).map Visit.subject = Expr.allSubjects es := by
  cases es with
  | nil => rfl
  | cons e rest =>
    simp [Expr.allVisits, Expr.allSubjects, Expr.map_subject_visits p e,
      Expr.map_subject_allVisits p rest]

end

theorem Place.map_subject_parameterVisits (p : Place) (parameters : List Token) :
    (p.parameterVisits parameters).map Visit.subject = parameters.map .declaration := by
  induction parameters generalizing p with
  | nil => rfl
  | cons name rest inductionHypothesis => simp [Place.parameterVisits, inductionHypothesis]

mutual

theorem Stmt.map_subject_visits (p : Place) (s : Stmt) :
    (s.visits p).map Visit.subject = s.subjects := by
  match s with
  | .expression value | .print value => exact value.map_subject_visits p
  | .var name none | .return keyword none => rfl
  | .var name (some initializer) =>
    simp [Stmt.visits, Stmt.subjects, initializer.map_subject_visits]
  | .block body => exact Stmt.map_subject_allVisits _ body
  | .ite condition thenBranch none =>
    simp [Stmt.visits, Stmt.subjects, condition.map_subject_visits,
      Stmt.map_subject_visits p thenBranch]
  | .ite condition thenBranch (some elseBranch) =>
    simp [Stmt.visits, Stmt.subjects, condition.map_subject_visits,
      Stmt.map_subject_visits p thenBranch, Stmt.map_subject_visits _ elseBranch]
  | .while condition body =>
    simp [Stmt.visits, Stmt.subjects, condition.map_subject_visits, Stmt.map_subject_visits p body]
  | .function declaration =>
    simp [Stmt.visits, Stmt.subjects, Function.map_subject_visits _ declaration]
  | .return keyword (some value) => simp [Stmt.visits, Stmt.subjects, value.map_subject_visits]
  | .class name superclass methods =>
    cases superclass <;>
      simp [Stmt.visits, Stmt.subjects, Place.superclassVisits,
        Function.map_subject_methodVisits _ methods]

theorem Stmt.map_subject_allVisits (p : Place) (ss : List Stmt) :
    (Stmt.allVisits p ss).map Visit.subject = Stmt.allSubjects ss := by
  cases ss with
  | nil => rfl
  | cons s rest =>
    simp [Stmt.allVisits, Stmt.allSubjects, Stmt.map_subject_visits p s,
      Stmt.map_subject_allVisits _ rest]

theorem Function.map_subject_visits (p : Place) (f : Function) :
    (f.visits p).map Visit.subject = f.subjects := by
  cases f with
  | mk name parameters body =>
    simp [Function.visits, Function.subjects, Place.map_subject_parameterVisits,
      Stmt.map_subject_allVisits _ body]

theorem Function.map_subject_methodVisits (p : Place) (fs : List Function) :
    (Function.methodVisits p fs).map Visit.subject = Function.allSubjects fs := by
  cases fs with
  | nil => rfl
  | cons f rest =>
    simp [Function.methodVisits, Function.allSubjects, Function.map_subject_visits _ f,
      Function.map_subject_methodVisits p rest]

end

/-! ## Spelling -/

/-- A name that is not one of the two implicit ones. -/
def IsOrdinary (name : String) : Prop := name ≠ "this" ∧ name ≠ "super"

/-- The keyword of a token is its lexeme, and no identifier is spelled like an implicit name. -/
structure Token.Spelled (t : Token) : Prop where
  identifier : t.kind = .identifier → IsOrdinary t.lexeme
  this : t.kind = .kwThis → t.lexeme = "this"
  super : t.kind = .kwSuper → t.lexeme = "super"

def Subject.Spelled : Subject → Prop
  | .declaration name => IsOrdinary name.lexeme
  | .mention .variable m | .mention .assignment m | .superclass _ m => IsOrdinary m.name
  | .mention .this m => m.name = "this"
  | .mention .super m => m.name = "super"
  | .result _ _ => True

/-! ## Occurrences -/

/-- The numbers of the occurrences that are looked up, in the order of the visits. -/
def Subject.ids (subjects : List Subject) : List Nat :=
  subjects.filterMap fun x => x.mention?.map (·.2.id)

/-- Subjects that were read from the tokens with numbers from `first` to before `last`. -/
structure ReadBetween (first last : Nat) (subjects : List Subject) : Prop where
  spelled : ∀ x ∈ subjects, x.Spelled
  bounds : ∀ n ∈ Subject.ids subjects, first ≤ n ∧ n < last
  distinct : (Subject.ids subjects).Nodup

theorem ReadBetween.widen {first last first' last' : Nat} {subjects : List Subject}
    (read : ReadBetween first last subjects) (lower : first' ≤ first) (upper : last ≤ last') :
    ReadBetween first' last' subjects := by
  refine ⟨read.spelled, fun n found => ?_, read.distinct⟩
  obtain ⟨low, high⟩ := read.bounds n found
  omega

/-! ## Declarations in statement lists -/

mutual

/-- No declaration is a branch of a conditional or the body of a loop. -/
def Stmt.WellPlaced : Stmt → Prop
  | .block body => Stmt.AllWellPlaced body
  | .ite _ thenBranch none => thenBranch.declared? = none ∧ thenBranch.WellPlaced
  | .ite _ thenBranch (some elseBranch) =>
    (thenBranch.declared? = none ∧ thenBranch.WellPlaced) ∧
      elseBranch.declared? = none ∧ elseBranch.WellPlaced
  | .while _ body => body.declared? = none ∧ body.WellPlaced
  | .function declaration => declaration.WellPlaced
  | .class _ _ methods => Function.AllWellPlaced methods
  | _ => True

def Stmt.AllWellPlaced : List Stmt → Prop
  | [] => True
  | s :: rest => s.WellPlaced ∧ Stmt.AllWellPlaced rest

def Function.WellPlaced : Function → Prop
  | .mk _ _ body => Stmt.AllWellPlaced body

def Function.AllWellPlaced : List Function → Prop
  | [] => True
  | f :: rest => f.WellPlaced ∧ Function.AllWellPlaced rest

end

theorem Stmt.allWellPlaced_iff (ss : List Stmt) :
    Stmt.AllWellPlaced ss ↔ ∀ s ∈ ss, s.WellPlaced := by
  induction ss with
  | nil => simp [Stmt.AllWellPlaced]
  | cons s rest inductionHypothesis => simp [Stmt.AllWellPlaced, inductionHypothesis]

theorem Function.allWellPlaced_iff (fs : List Function) :
    Function.AllWellPlaced fs ↔ ∀ f ∈ fs, f.WellPlaced := by
  induction fs with
  | nil => simp [Function.AllWellPlaced]
  | cons f rest inductionHypothesis => simp [Function.AllWellPlaced, inductionHypothesis]

theorem Function.wellPlaced_body {f : Function} (placed : f.WellPlaced) :
    Stmt.AllWellPlaced f.body := by
  obtain ⟨name, parameters, body⟩ := f
  rwa [Function.WellPlaced] at placed

/-- A statement that declares nothing leaves its place as it is. -/
theorem Stmt.after_of_not_declared (p : Place) (s : Stmt) (placed : s.WellPlaced)
    (silent : s.declared? = none) : s.after p = p := by
  cases s with
  | ite _ thenBranch elseBranch =>
    cases elseBranch with
    | none =>
      rw [Stmt.WellPlaced] at placed
      rw [Stmt.after, after_of_not_declared p thenBranch placed.2 placed.1]
    | some elseBranch =>
      rw [Stmt.WellPlaced] at placed
      rw [Stmt.after, after_of_not_declared p thenBranch placed.1.2 placed.1.1,
        after_of_not_declared p elseBranch placed.2.2 placed.2.1]
  | «while» _ body =>
    rw [Stmt.WellPlaced] at placed
    rw [Stmt.after, after_of_not_declared p body placed.2 placed.1]
  | expression | print | block | «return» => rfl
  | var | function | «class» => cases silent

theorem Stmt.after_of_declared (p : Place) {s : Stmt} {name : Token}
    (declared : s.declared? = some name) : s.after p = p.declareComplete name := by
  cases s with
  | var other _ =>
    obtain rfl : other = name := Option.some.inj declared
    rw [Stmt.after]
  | «class» other _ _ =>
    obtain rfl : other.token = name := Option.some.inj declared
    rw [Stmt.after]
  | function declaration =>
    obtain rfl : declaration.name = name := Option.some.inj declared
    rw [Stmt.after]
  | _ => cases declared

/-- The subjects of a statement include the name that it declares. -/
theorem Stmt.declaration_mem_subjects {s : Stmt} {name : Token} (declared : s.declared? = some name) :
    .declaration name ∈ s.subjects := by
  cases s with
  | var other initializer =>
    obtain rfl : other = name := Option.some.inj declared
    cases initializer <;> simp [Stmt.subjects]
  | «class» other _ _ =>
    obtain rfl : other.token = name := Option.some.inj declared
    simp [Stmt.subjects]
  | function declaration =>
    obtain rfl : declaration.name = name := Option.some.inj declared
    simp [Stmt.subjects]
  | _ => cases declared

end Lox
