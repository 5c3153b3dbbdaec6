import Lox.Proofs.Scope.Rules
import Lox.Proofs.Scope.Subjects
import Mathlib.Data.List.Nodup

/-!
# Where occurrences stand

An occurrence stands in a program where a part mentions it: an expression that names it, or the
superclass of a class. A program that was read uses no number twice, and then a number stands at one
position only.
-/

namespace Lox

/-- The occurrences that are looked up, in the order of the visits. -/
def Subject.occurrences (subjects : List Subject) : List Occurrence :=
  subjects.filterMap fun x => x.mention?.map (·.2)

namespace Node

/-- The occurrence that a part mentions itself. -/
def mention? : Node → Option Occurrence
  | expression (.name target) => some target
  | expression (.assign target _) => some target
  | expression (.this keyword) => some keyword
  | expression (.super keyword _) => some keyword
  | superclass _ mention => some mention
  | _ => none

def subjects : Node → List Subject
  | program body => Stmt.allSubjects body
  | statement s => s.subjects
  | expression e => e.subjects
  | function declaration | method declaration => declaration.subjects
  | parameter name => [.declaration name]
  | superclass className mention => [.superclass className mention]

/-- The occurrences in a part, as often as they stand there. -/
def occurrences (node : Node) : List Occurrence := Subject.occurrences node.subjects

def ids (node : Node) : List Nat := node.occurrences.map Occurrence.id

end Node

/-- The occurrence stands in the program where the trail leads. -/
def Program.Mentions (program : Program) (trail : Trail) (o : Occurrence) : Prop :=
  ∃ node, Reaches [] (.program program) trail node ∧ node.mention? = some o

/-- The number of an occurrence tells its position. -/
def Program.Unambiguous (program : Program) : Prop :=
  ∀ trail trail' o o', program.Mentions trail o → program.Mentions trail' o' → o.id = o'.id →
    trail = trail' ∧ o = o'

/-- No occurrence of the one program has the number of one of the other. -/
def Program.Apart (program program' : Program) : Prop :=
  ∀ trail trail' o o', program.Mentions trail o → program'.Mentions trail' o' → o.id ≠ o'.id

/-! ## The occurrences in a part -/

namespace Subject

theorem ids_eq (subjects : List Subject) :
    ids subjects = (occurrences subjects).map Occurrence.id := by
  simp [ids, occurrences, List.map_filterMap, Option.map_map, Function.comp_def]

@[simp] theorem occurrences_nil : occurrences [] = [] := rfl

@[simp] theorem occurrences_append (subjects others : List Subject) :
    occurrences (subjects ++ others) = occurrences subjects ++ occurrences others :=
  List.filterMap_append

@[simp] theorem occurrences_cons (x : Subject) (rest : List Subject) :
    occurrences (x :: rest) = (x.mention?.map (·.2)).toList ++ occurrences rest := by
  cases found : x.mention? <;> simp [occurrences, found]

theorem occurrences_flatMap {α : Type} (parts : List α) (f : α → List Subject) :
    occurrences (parts.flatMap f) = parts.flatMap fun part => occurrences (f part) :=
  List.filterMap_flatMap

theorem occurrences_declarations (names : List Token) :
    occurrences (names.map .declaration) = [] := by
  rw [occurrences, List.filterMap_map]
  exact List.filterMap_eq_nil_iff.2 fun _ _ => rfl

end Subject

namespace Node

theorem occurrences_parameters (parameters : List Token) :
    (parameters.map parameter).flatMap occurrences = [] := by
  rw [List.flatMap_map]
  exact List.flatMap_eq_nil_iff.2 fun _ _ => rfl

theorem occurrences_expressions (es : List Expr) :
    Subject.occurrences (Expr.allSubjects es) = (es.map expression).flatMap occurrences := by
  rw [Expr.allSubjects_eq, Subject.occurrences_flatMap, List.flatMap_map]
  rfl

theorem occurrences_statements (ss : List Stmt) :
    Subject.occurrences (Stmt.allSubjects ss) = (ss.map statement).flatMap occurrences := by
  rw [Stmt.allSubjects_eq, Subject.occurrences_flatMap, List.flatMap_map]
  rfl

theorem occurrences_methods (fs : List Function) :
    Subject.occurrences (Function.allSubjects fs) = (fs.map method).flatMap occurrences := by
  rw [Function.allSubjects_eq, Subject.occurrences_flatMap, List.flatMap_map]
  rfl

theorem occurrences_function (f : Function) :
    Subject.occurrences f.subjects =
      (f.parameters.map parameter ++ f.body.map statement).flatMap occurrences := by
  obtain ⟨name, parameters, body⟩ := f
  rw [Function.parameters, Function.body, List.flatMap_append, occurrences_parameters,
    List.nil_append, Function.subjects, Subject.occurrences_append,
    Subject.occurrences_declarations, occurrences_statements]
  rfl

/-- The occurrences in a part are its own and those in its children. -/
theorem occurrences_perm (node : Node) :
    node.occurrences.Perm (node.mention?.toList ++ node.children.flatMap occurrences) := by
  cases node with
  | program body => exact .of_eq (occurrences_statements body)
  | function declaration | method declaration => exact .of_eq (occurrences_function declaration)
  | parameter | superclass => exact .refl _
  | expression e =>
    cases e with
    | assign target value =>
      -- the value comes before the target
      have split : (expression (.assign target value)).occurrences =
          (expression value).occurrences ++ [target] := Subject.occurrences_append ..
      simp [split, mention?, children]
    | call callee paren arguments =>
      refine .of_eq ?_
      rw [children, List.flatMap_cons, ← occurrences_expressions]
      exact Subject.occurrences_append ..
    | literal | name | this | super => exact .refl _
    | _ =>
      refine .of_eq ?_
      simp [occurrences, subjects, mention?, children, Expr.subjects]
  | statement s =>
    refine .of_eq ?_
    cases s with
    | block body => exact occurrences_statements body
    | «class» name parent methods =>
      simp only [children, List.flatMap_append, ← occurrences_methods]
      cases parent <;> exact Subject.occurrences_append ..
    | ite _ _ part | var _ part | «return» _ part =>
      cases part <;>
        simp [occurrences, subjects, mention?, children, Stmt.subjects, Subject.mention?]
    | _ => simp [occurrences, subjects, mention?, children, Stmt.subjects, Subject.mention?]

/-- The numbers in a part are its own and those in its children. -/
theorem ids_perm (node : Node) :
    node.ids.Perm (node.mention?.toList.map Occurrence.id ++ node.children.flatMap ids) := by
  have split := node.occurrences_perm.map Occurrence.id
  rwa [List.map_append, List.map_flatMap] at split

theorem mem_ids {node : Node} {o : Occurrence} (mentions : node.mention? = some o) :
    o.id ∈ node.ids := by
  refine node.ids_perm.mem_iff.2 (List.mem_append_left _ ?_)
  simp [mentions]

variable {node child : Node} {index : Nat} (here : node.children[index]? = some child)
include here

theorem ids_of_child {n : Nat} (found : n ∈ child.ids) : n ∈ node.ids :=
  node.ids_perm.mem_iff.2
    (List.mem_append_right _ (List.mem_flatMap.2 ⟨child, List.mem_of_getElem? here, found⟩))

variable (distinct : node.ids.Nodup)
include distinct

theorem distinct_child : child.ids.Nodup := by
  have split := node.ids_perm.nodup_iff.1 distinct
  exact (List.nodup_flatMap.1 (List.nodup_append.1 split).2.1).1 child (List.mem_of_getElem? here)

/-- What a part mentions itself is not in its children. -/
theorem own_of_child {o : Occurrence} (mentions : node.mention? = some o) : o.id ∉ child.ids := by
  intro found
  have split := node.ids_perm.nodup_iff.1 distinct
  refine (List.nodup_append.1 split).2.2 o.id (by simp [mentions]) o.id ?_ rfl
  exact List.mem_flatMap.2 ⟨child, List.mem_of_getElem? here, found⟩

/-- A number is in one child only. -/
theorem index_unique {other : Node} {index' : Nat} (here' : node.children[index']? = some other)
    {n : Nat} (found : n ∈ child.ids) (found' : n ∈ other.ids) : index = index' := by
  have split := node.ids_perm.nodup_iff.1 distinct
  have apart := (List.nodup_flatMap.1 (List.nodup_append.1 split).2.1).2
  rw [List.pairwise_iff_getElem] at apart
  obtain ⟨bound, rfl⟩ := List.getElem?_eq_some_iff.1 here
  obtain ⟨bound', rfl⟩ := List.getElem?_eq_some_iff.1 here'
  rcases Nat.lt_trichotomy index index' with before | same | after
  · exact absurd found' (apart index index' bound bound' before found)
  · exact same
  · exact absurd found (apart index' index bound' bound after found')

end Node

/-! ## The numbers in a program -/

namespace Reaches

variable {trail trail' : Trail} {node node' : Node}

theorem ids_subset (reaches : Reaches trail node trail' node') {n : Nat} (found : n ∈ node'.ids) :
    n ∈ node.ids := by
  induction reaches with
  | refl => exact found
  | child _ here inductionHypothesis => exact inductionHypothesis (Node.ids_of_child here found)

theorem distinct (reaches : Reaches trail node trail' node') (distinct : node.ids.Nodup) :
    node'.ids.Nodup := by
  induction reaches with
  | refl => exact distinct
  | child _ here inductionHypothesis => exact Node.distinct_child here inductionHypothesis

/-- Where a part has the number of an occurrence, the occurrence stands in it. -/
theorem encloses {root : Node} (distinct : root.ids.Nodup) (reaches : Reaches [] root trail node)
    (reaches' : Reaches [] root trail' node') {o : Occurrence} (mentions : node'.mention? = some o)
    (found : o.id ∈ node.ids) : Reaches trail node trail' node' := by
  induction reaches with
  | refl => exact reaches'
  | @child outer around part index above here inductionHypothesis =>
    have distinctAround := above.distinct distinct
    have inside := inductionHypothesis (Node.ids_of_child here found)
    obtain ⟨rfl, rfl⟩ | ⟨index', part', here', below⟩ := reaches_iff.1 inside
    · exact absurd found (Node.own_of_child here distinctAround mentions)
    · have found' := below.ids_subset (Node.mem_ids mentions)
      obtain rfl := Node.index_unique here distinctAround here' found found'
      obtain rfl := Option.some.inj (here.symm.trans here')
      exact below

/-- The only part that is reached by no step is the part itself. -/
theorem eq_of_same_trail (reaches : Reaches trail node trail node') : node' = node := by
  obtain ⟨-, same⟩ | ⟨index, part, -, below⟩ := reaches_iff.1 reaches
  · exact same
  · have longer := below.suffix.length_le
    simp only [List.length_cons] at longer
    omega

end Reaches

section Sizes

variable {α : Type} [SizeOf α] {f : α → Node} {child : Node}
  (wraps : ∀ a, sizeOf (f a) = 1 + sizeOf a)
include wraps

theorem Node.sizeOf_map {parts : List α} (member : child ∈ parts.map f) :
    sizeOf child ≤ sizeOf parts := by
  obtain ⟨part, inside, rfl⟩ := List.mem_map.1 member
  have smaller := List.sizeOf_lt_of_mem inside
  have size := wraps part
  omega

theorem Node.sizeOf_toList_map {part : Option α} (member : child ∈ part.toList.map f) :
    sizeOf child ≤ sizeOf part := by
  cases part with
  | none => cases member
  | some a =>
    obtain rfl := List.mem_singleton.1 member
    rw [wraps]
    exact Nat.le_refl _

end Sizes

namespace Node

/-! A child is an argument of the constructor, or it lies in a list or an option among them. -/

variable {child : Node}

theorem sizeOf_child_function (f : Function)
    (member : child ∈ f.parameters.map parameter ++ f.body.map statement) :
    sizeOf child < 1 + sizeOf f := by
  obtain ⟨name, parameters, body⟩ := f
  simp only [Function.mk.sizeOf_spec]
  rcases List.mem_append.1 member with inParameters | inBody
  · have bound := sizeOf_map (fun _ => rfl) inParameters
    simp only [Function.parameters] at bound
    omega
  · have bound := sizeOf_map (fun _ => rfl) inBody
    simp only [Function.body] at bound
    omega

theorem sizeOf_child_expression (e : Expr) (member : child ∈ (expression e).children) :
    sizeOf child < sizeOf (expression e) := by
  cases e with
  | call callee paren arguments =>
    rcases List.mem_cons.1 member with rfl | inArguments
    · simp; omega
    · have bound := sizeOf_map (fun _ => rfl) inArguments
      simp; omega
  | binary | logical | set =>
    simp only [children, List.mem_cons, List.not_mem_nil, or_false] at member
    simp only [expression.sizeOf_spec, Expr.binary.sizeOf_spec, Expr.logical.sizeOf_spec,
      Expr.set.sizeOf_spec]
    rcases member with rfl | rfl
    · simp only [expression.sizeOf_spec]
      omega
    · simp only [expression.sizeOf_spec]
      omega
  | grouping =>
    obtain rfl := List.mem_singleton.1 member
    simp
  | assign | unary | get =>
    obtain rfl := List.mem_singleton.1 member
    simp only [expression.sizeOf_spec, Expr.assign.sizeOf_spec, Expr.unary.sizeOf_spec,
      Expr.get.sizeOf_spec]
    omega
  | literal | name | this | super => cases member

theorem sizeOf_child_statement (s : Stmt) (member : child ∈ (statement s).children) :
    sizeOf child < sizeOf (statement s) := by
  cases s with
  | block body =>
    have bound := sizeOf_map (fun _ => rfl) member
    simp; omega
  | expression | print | function =>
    obtain rfl := List.mem_singleton.1 member
    simp
  | var _ part | «return» _ part =>
    have bound := sizeOf_toList_map (fun _ => rfl) member
    simp; omega
  | «while» =>
    simp only [children, List.mem_cons, List.not_mem_nil, or_false] at member
    simp only [statement.sizeOf_spec, Stmt.while.sizeOf_spec]
    rcases member with rfl | rfl
    · simp only [expression.sizeOf_spec]
      omega
    · simp only [statement.sizeOf_spec]
      omega
  | ite condition thenBranch elseBranch =>
    simp only [children, List.mem_cons] at member
    rcases member with rfl | rfl | inElse
    · simp; omega
    · simp; omega
    · have bound := sizeOf_toList_map (fun _ => rfl) inElse
      simp; omega
  | «class» name parent methods =>
    rcases List.mem_append.1 member with inParent | inMethods
    · cases parent with
      | none => cases inParent
      | some mention =>
        obtain rfl := List.mem_singleton.1 inParent
        cases name
        simp; omega
    · have bound := sizeOf_map (fun _ => rfl) inMethods
      simp; omega

/-- A part is smaller than what it lies in. -/
theorem sizeOf_child {node : Node} (member : child ∈ node.children) :
    sizeOf child < sizeOf node := by
  cases node with
  | program body =>
    have bound := sizeOf_map (fun _ => rfl) member
    simp; omega
  | function declaration | method declaration =>
    simpa using sizeOf_child_function declaration member
  | parameter | superclass => cases member
  | expression e => exact sizeOf_child_expression e member
  | statement s => exact sizeOf_child_statement s member

end Node

/-- What holds of a part if it holds of its children holds of every part. -/
theorem Node.induction {P : Node → Prop}
    (step : ∀ node, (∀ child ∈ node.children, P child) → P node) (node : Node) : P node :=
  step node fun child _ => induction step child
termination_by sizeOf node
decreasing_by exact sizeOf_child ‹_›

/-- Every occurrence in a part stands somewhere in it. -/
theorem Node.exists_reaches (node : Node) (trail : Trail) {o : Occurrence}
    (found : o ∈ node.occurrences) :
    ∃ trail' node', Reaches trail node trail' node' ∧ node'.mention? = some o := by
  induction node using Node.induction generalizing trail with
  | step node inductionHypothesis =>
    rcases List.mem_append.1 (node.occurrences_perm.mem_iff.1 found) with own | below
    · exact ⟨trail, node, .refl, by simpa using own⟩
    · obtain ⟨child, member, found⟩ := List.mem_flatMap.1 below
      obtain ⟨index, here⟩ := List.getElem?_of_mem member
      obtain ⟨trail', node', reaches, mentions⟩ :=
        inductionHypothesis child member ((node, index) :: trail) found
      exact ⟨trail', node', reaches_iff.2 (.inr ⟨index, child, here, reaches⟩), mentions⟩

namespace Program

variable {program : Program}

theorem Mentions.mem_ids {trail : Trail} {o : Occurrence} (mentions : program.Mentions trail o) :
    o.id ∈ Subject.ids (Stmt.allSubjects program) := by
  obtain ⟨node, reaches, here⟩ := mentions
  rw [Subject.ids_eq]
  exact reaches.ids_subset (Node.mem_ids here)

theorem exists_mentions {o : Occurrence}
    (found : o ∈ Subject.occurrences (Stmt.allSubjects program)) :
    ∃ trail, program.Mentions trail o := by
  obtain ⟨trail, node, reaches, mentions⟩ := (Node.program program).exists_reaches [] found
  exact ⟨trail, node, reaches, mentions⟩

theorem unambiguous (distinct : (Subject.ids (Stmt.allSubjects program)).Nodup) :
    program.Unambiguous := by
  rintro trail trail' o o' ⟨node, reaches, here⟩ ⟨node', reaches', here'⟩ same
  rw [Subject.ids_eq] at distinct
  have root : (Node.program program).ids.Nodup := distinct
  have below := reaches.encloses root reaches' here' (same ▸ Node.mem_ids here)
  have above := reaches'.encloses root reaches here (same ▸ Node.mem_ids here')
  obtain rfl : trail = trail' := below.suffix.eq_of_length_le above.suffix.length_le
  obtain rfl := below.eq_of_same_trail
  exact ⟨rfl, Option.some.inj (here.symm.trans here')⟩

end Program

end Lox
