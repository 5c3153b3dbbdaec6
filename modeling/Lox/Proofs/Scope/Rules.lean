import Lox.Scope.Fault
import Lox.Syntax
import Lox.Proofs.Scope.Place
import Mathlib.Data.List.Infix

/-!
# The rules of scope

The rules say which parts of a program offend, by what lies around them in the tree: the innermost
function, the innermost class, the declarations before a declaration in its scope, the variable whose
initializer is read. A list of errors reports on a part if it has each complaint about the part, and
about the parts that lie in it, once.
-/

namespace Lox

/-! ## Parts of a program -/

inductive Node where
  | program (body : List Stmt)
  | statement (s : Stmt)
  | expression (e : Expr)
  | function (declaration : Function)
  | method (declaration : Function)
  | parameter (name : Token)
  /-- The name of the superclass in the declaration of a class. -/
  | superclass (className : Token) (mention : Occurrence)

namespace Node

/-- The parts that a part consists of. The parameters of a function come before its body. -/
@[simp] def children : Node → List Node
  | program body => body.map statement
  | statement (.expression value) => [expression value]
  | statement (.print value) => [expression value]
  | statement (.var _ initializer) => initializer.toList.map expression
  | statement (.block body) => body.map statement
  | statement (.ite condition thenBranch elseBranch) =>
    expression condition :: statement thenBranch :: elseBranch.toList.map statement
  | statement (.while condition body) => [expression condition, statement body]
  | statement (.function declaration) => [function declaration]
  | statement (.return _ value) => value.toList.map expression
  | statement (.class name parent methods) =>
    parent.toList.map (superclass name.token) ++ methods.map method
  | expression (.literal _) => []
  | expression (.grouping inner) => [expression inner]
  | expression (.name _) => []
  | expression (.assign _ value) => [expression value]
  | expression (.unary _ operand) => [expression operand]
  | expression (.binary left _ right) => [expression left, expression right]
  | expression (.logical left _ right) => [expression left, expression right]
  | expression (.call callee _ arguments) => expression callee :: arguments.map expression
  | expression (.get object _) => [expression object]
  | expression (.set object _ value) => [expression value, expression object]
  | expression (.this _) => []
  | expression (.super _ _) => []
  | function declaration => declaration.parameters.map parameter ++ declaration.body.map statement
  | method declaration => declaration.parameters.map parameter ++ declaration.body.map statement
  | parameter _ => []
  | superclass _ _ => []

/-- The name that a part declares in the scope around it. -/
def declared? : Node → Option Token
  | statement s => s.declared?
  | parameter name => some name
  | _ => none

def isFunction : Node → Bool
  | function _ | method _ => true
  | _ => false

def isClass : Node → Bool
  | statement (.class _ _ _) => true
  | _ => false

/-- Whether the parts of a part stand in one local scope. -/
def isScope : Node → Bool
  | statement (.block _) | function _ | method _ => true
  | _ => false

/-- Whether a part declares a variable of this name and gives it a value. -/
def initializes (name : String) : Node → Bool
  | statement (.var declared (some _)) => declared.lexeme == name
  | _ => false

end Node

/-- The way to a part: the parts around it, the innermost first, each with the index of the child that
leads on. -/
abbrev Trail := List (Node × Nat)

namespace Trail

def innermostFunction? (trail : Trail) : Option Node := (trail.map Prod.fst).find? Node.isFunction

def innermostClass? (trail : Trail) : Option Node := (trail.map Prod.fst).find? Node.isClass

/-- What stands there stands immediately in a local scope. -/
def IsLocal (trail : Trail) : Prop := ∃ level ∈ trail.head?, level.1.isScope = true

/-- The name is declared before, in the same local scope. -/
def DeclaredBefore (trail : Trail) (name : String) : Prop :=
  ∃ scope index outer, trail = (scope, index) :: outer ∧ scope.isScope = true ∧
    ∃ earlier < index, ∃ sibling ∈ scope.children[earlier]?, ∃ other ∈ sibling.declared?,
      other.lexeme = name

/-- What stands there stands in the initializer of a local variable of this name. -/
def InInitializer (trail : Trail) (name : String) : Prop :=
  ∃ declaration index outer, (declaration, index) :: outer <:+ trail ∧
    Node.initializes name declaration = true ∧ IsLocal outer

end Trail

/-- From the first part at its trail, the second one is reached: it is the same part, or lies in it. -/
inductive Reaches (trail : Trail) (node : Node) : Trail → Node → Prop where
  | refl : Reaches trail node trail node
  | child {trail' : Trail} {node' part : Node} {index : Nat} (above : Reaches trail node trail' node')
      (here : node'.children[index]? = some part) :
      Reaches trail node ((node', index) :: trail') part

/-! ## Offences -/

/-- The part that stands there offends against a rule, in a way that has the message, at the token. -/
inductive Offence (trail : Trail) : Node → String → Token → Prop where
  | topLevelReturn {keyword : Token} {value : Option Expr}
      (outside : trail.innermostFunction? = none) :
      Offence trail (.statement (.return keyword value)) "Can't return from top-level code." keyword
  | initializerReturn {keyword : Token} {value : Expr} {declaration : Function}
      (inside : trail.innermostFunction? = some (.method declaration))
      (initializer : declaration.name.lexeme = "init") :
      Offence trail (.statement (.return keyword (some value)))
        "Can't return a value from an initializer." keyword
  | thisOutsideClass {keyword : Occurrence} (outside : trail.innermostClass? = none) :
      Offence trail (.expression (.this keyword)) "Can't use 'this' outside of a class."
        keyword.token
  | superOutsideClass {keyword method : Occurrence}
      (outside : trail.innermostClass? = none) :
      Offence trail (.expression (.super keyword method)) "Can't use 'super' outside of a class."
        keyword.token
  | superWithoutSuperclass {keyword method name : Occurrence} {methods : List Function}
      (inside : trail.innermostClass? = some (.statement (.class name none methods))) :
      Offence trail (.expression (.super keyword method))
        "Can't use 'super' in a class with no superclass." keyword.token
  | inheritsFromItself {className : Token} {mention : Occurrence}
      (same : mention.name = className.lexeme) :
      Offence trail (.superclass className mention) "A class can't inherit from itself."
        mention.token
  | alreadyDeclared {node : Node} {name : Token} (declares : node.declared? = some name)
      (before : trail.DeclaredBefore name.lexeme) :
      Offence trail node "Already a variable with this name in this scope." name
  | ownInitializer {mention : Occurrence} (inside : trail.InInitializer mention.name) :
      Offence trail (.expression (.name mention))
        "Can't read local variable in its own initializer." mention.token

/-- A place, a message and a token. -/
abbrev Complaint := Trail × String × Token

/-- The complaint is about the part or a part that lies in it. -/
def Complaint.IsDue (trail : Trail) (node : Node) (complaint : Complaint) : Prop :=
  ∃ part, Reaches trail node complaint.1 part ∧
    Offence complaint.1 part complaint.2.1 complaint.2.2

/-! ## Reports about a part -/

theorem Reaches.suffix {trail trail' : Trail} {node node' : Node}
    (reaches : Reaches trail node trail' node') : trail <:+ trail' := by
  induction reaches with
  | refl => exact List.suffix_rfl
  | child _ _ inductionHypothesis => exact inductionHypothesis.trans (List.suffix_cons ..)

theorem reaches_iff {trail trail' : Trail} {node node' : Node} :
    Reaches trail node trail' node' ↔
      (trail' = trail ∧ node' = node) ∨
        ∃ index part, node.children[index]? = some part ∧
          Reaches ((node, index) :: trail) part trail' node' := by
  constructor
  · intro reaches
    induction reaches with
    | refl => exact .inl ⟨rfl, rfl⟩
    | @child _ _ part index _ here inductionHypothesis =>
      obtain ⟨rfl, rfl⟩ | ⟨first, between, there, below⟩ := inductionHypothesis
      · exact .inr ⟨index, part, here, .refl⟩
      · exact .inr ⟨first, between, there, .child below here⟩
  · rintro (⟨rfl, rfl⟩ | ⟨index, part, here, below⟩)
    · exact .refl
    · induction below with
      | refl => exact .child .refl here
      | child _ there inductionHypothesis => exact .child inductionHypothesis there

namespace ScopeError

/-- What an error says, and where. -/
def words (e : ScopeError) : String × Token := (e.fault.message, e.token)

end ScopeError

/-- The errors are the complaints that satisfy `Due`, each once. -/
def AreReports (errors : List ScopeError) (Due : Complaint → Prop) : Prop :=
  ∃ complaints : List Complaint, complaints.Nodup ∧ (∀ c, c ∈ complaints ↔ Due c) ∧
    errors.map ScopeError.words = complaints.map Prod.snd

namespace AreReports

variable {errors errors' : List ScopeError} {Due Due' Due'' : Complaint → Prop}

theorem nil (nothing : ∀ c, ¬Due c) : AreReports [] Due :=
  ⟨[], .nil, by simpa using nothing, rfl⟩

theorem congr (reports : AreReports errors Due) (same : ∀ c, Due' c ↔ Due c) :
    AreReports errors Due' := by
  obtain ⟨complaints, distinct, members, words⟩ := reports
  exact ⟨complaints, distinct, fun c => by rw [members, same], words⟩

theorem append (first : AreReports errors Due) (second : AreReports errors' Due')
    (apart : ∀ c, Due c → ¬Due' c) (either : ∀ c, Due'' c ↔ Due c ∨ Due' c) :
    AreReports (errors ++ errors') Due'' := by
  obtain ⟨complaints, distinct, members, words⟩ := first
  obtain ⟨complaints', distinct', members', words'⟩ := second
  refine ⟨complaints ++ complaints', ?_, fun c => ?_, by simp [words, words']⟩
  · refine List.nodup_append.2 ⟨distinct, distinct', fun c member c' member' => ?_⟩
    rintro rfl
    exact apart c ((members c).1 member) ((members' c).1 member')
  · rw [List.mem_append, members, members', either]

end AreReports

/-- The errors are the reports about a part. -/
def ReportNode (trail : Trail) (node : Node) (errors : List ScopeError) : Prop :=
  AreReports errors (Complaint.IsDue trail node)

/-- The errors are the reports about children of a part, the first of which has the given index. -/
def ReportChildren (trail : Trail) (node : Node) (first : Nat) (children : List Node)
    (errors : List ScopeError) : Prop :=
  AreReports errors fun c => ∃ index part, children[index]? = some part ∧
    c.IsDue ((node, first + index) :: trail) part

namespace ReportChildren

variable {trail : Trail} {node child : Node} {first : Nat} {children others : List Node}
  {errors errors' : List ScopeError}

theorem nil : ReportChildren trail node first [] [] := AreReports.nil (by simp)

theorem single (report : ReportNode ((node, first) :: trail) child errors) :
    ReportChildren trail node first [child] errors := by
  refine AreReports.congr report fun c => ⟨?_, fun due => ⟨0, child, rfl, due⟩⟩
  rintro ⟨index, part, here, due⟩
  obtain ⟨rfl, rfl⟩ : index = 0 ∧ child = part := by simpa [List.getElem?_singleton] using here
  exact due

theorem append (report : ReportChildren trail node first children errors)
    (report' : ReportChildren trail node (first + children.length) others errors') :
    ReportChildren trail node first (children ++ others) (errors ++ errors') := by
  refine AreReports.append report report' ?_ fun c => ?_
  · -- the trail tells which child a complaint is about
    rintro c ⟨index, part, here, _, reaches, -⟩ ⟨index', part', -, _, reaches', -⟩
    have same := List.suffix_of_suffix_length_le reaches.suffix reaches'.suffix (Nat.le_refl _)
    have equal := same.eq_of_length rfl
    have bound := (List.getElem?_eq_some_iff.1 here).1
    simp only [List.cons.injEq, Prod.mk.injEq] at equal
    omega
  · constructor
    · rintro ⟨index, part, here, due⟩
      rw [List.getElem?_append] at here
      split at here
      · exact .inl ⟨index, part, here, due⟩
      · refine .inr ⟨index - children.length, part, here, ?_⟩
        rwa [show first + children.length + (index - children.length) = first + index by omega]
    · rintro (⟨index, part, here, due⟩ | ⟨index, part, here, due⟩)
      · have bound := (List.getElem?_eq_some_iff.1 here).1
        exact ⟨index, part, by rwa [List.getElem?_append_left bound], due⟩
      · refine ⟨children.length + index, part, ?_, ?_⟩
        · rwa [List.getElem?_append_right (by omega), Nat.add_sub_cancel_left]
        · rwa [← Nat.add_assoc]

theorem cons (report : ReportNode ((node, first) :: trail) child errors)
    (report' : ReportChildren trail node (first + 1) others errors') :
    ReportChildren trail node first (child :: others) (errors ++ errors') :=
  append (single report) report'

end ReportChildren

/-- The errors are those of the part itself, at most one. -/
structure OwnReport (trail : Trail) (node : Node) (errors : List ScopeError) : Prop where
  few : errors.length ≤ 1
  offence : ∀ message token,
    Offence trail node message token ↔ (message, token) ∈ errors.map ScopeError.words

theorem OwnReport.reports {trail : Trail} {node : Node} {own : List ScopeError}
    (report : OwnReport trail node own) :
    AreReports own fun c => c.1 = trail ∧ Offence trail node c.2.1 c.2.2 := by
  refine ⟨own.map fun e => (trail, e.words), ?_, fun c => ?_, by simp⟩
  · obtain ⟨few, -⟩ := report
    cases own with
    | nil => exact .nil
    | cons e rest =>
      obtain rfl : rest = [] := by simpa using few
      simp
  · obtain ⟨where', message, token⟩ := c
    simp only [report.offence, List.mem_map, Prod.mk.injEq]
    constructor
    · rintro ⟨e, member, rfl, words⟩
      exact ⟨rfl, e, member, words⟩
    · rintro ⟨rfl, e, member, words⟩
      exact ⟨e, member, rfl, words⟩

namespace OwnReport

variable {trail : Trail} {node : Node} {error : ScopeError}

theorem none (quiet : ∀ message token, ¬Offence trail node message token) :
    OwnReport trail node [] :=
  ⟨by simp, by simpa using quiet⟩

theorem one (due : Offence trail node error.fault.message error.token)
    (only : ∀ message token, Offence trail node message token →
      message = error.fault.message ∧ token = error.token) : OwnReport trail node [error] := by
  refine ⟨Nat.le_refl 1, fun message token => ⟨fun offence => ?_, fun reported => ?_⟩⟩
  · obtain ⟨rfl, rfl⟩ := only message token offence
    exact List.mem_singleton_self _
  · obtain ⟨rfl, rfl⟩ := Prod.mk.inj (List.mem_singleton.1 reported)
    exact due

theorem ite {holds : Prop} [Decidable holds]
    (due : holds → Offence trail node error.fault.message error.token)
    (only : ∀ message token, Offence trail node message token →
      holds ∧ message = error.fault.message ∧ token = error.token) :
    OwnReport trail node (if holds then [error] else []) := by
  split
  · next here => exact one (due here) fun message token offence => (only message token offence).2
  · next absent => exact none fun message token offence => absent (only message token offence).1

end OwnReport

/-- The reports about a part: those about the part itself, and then those about its children. -/
theorem ReportNode.intro {trail : Trail} {node : Node} {own errors : List ScopeError}
    (here : OwnReport trail node own)
    (below : ReportChildren trail node 0 node.children errors) :
    ReportNode trail node (own ++ errors) := by
  refine AreReports.append here.reports below ?_ fun c => ?_
  -- A complaint about a child has a longer trail than one about the part itself.
  · rintro ⟨_, _⟩ ⟨rfl, -⟩ ⟨index, part, -, _, reaches, -⟩
    have longer := reaches.suffix.length_le
    simp only [List.length_cons] at longer
    omega
  · constructor
    · rintro ⟨part, reaches, offence⟩
      obtain ⟨same, rfl⟩ | ⟨index, child, there, below⟩ := reaches_iff.1 reaches
      · exact .inl ⟨same, same ▸ offence⟩
      · exact .inr ⟨index, child, there, part, by rwa [Nat.zero_add], offence⟩
    · rintro (⟨same, offence⟩ | ⟨index, child, there, part, below, offence⟩)
      · exact ⟨node, reaches_iff.2 (.inl ⟨same, rfl⟩), same.symm ▸ offence⟩
      · rw [Nat.zero_add] at below
        exact ⟨part, reaches_iff.2 (.inr ⟨index, child, there, below⟩), offence⟩

/-- A part that cannot offend itself has the reports about its children. -/
theorem ReportNode.silent {trail : Trail} {node : Node} {errors : List ScopeError}
    (quiet : ∀ message token, ¬Offence trail node message token)
    (below : ReportChildren trail node 0 node.children errors) : ReportNode trail node errors :=
  .intro (.none quiet) below

theorem ReportNode.leaf {trail : Trail} {node : Node} {own : List ScopeError}
    (last : node.children = []) (here : OwnReport trail node own) : ReportNode trail node own := by
  have below : ReportChildren trail node 0 node.children [] := by
    rw [last]
    exact .nil
  simpa using ReportNode.intro here below

end Lox
