import Lox.Proofs.Grammar.Placement
import Lox.Proofs.Scope.Rules

/-!
# Well-formed trees

What the phases after the parser take for granted about a tree: which kinds its operators and names have,
and that declarations stand in lists of statements. The parser yields such trees for every token list, the
trees after a recovery included.
-/

namespace Lox

/-! ## Nodes -/

/-- The kinds of binary operators. -/
def binaryOperators : List TokenKind :=
  [.bangEqual, .equalEqual, .greater, .greaterEqual, .less, .lessEqual, .minus, .plus, .slash, .star]

namespace Node

/-- The tokens of a node itself have the kinds that its form demands. -/
@[simp] def WellFormed : Node → Prop
  | expression (.unary operator _) => operator.token.kind ∈ [.bang, .minus]
  | expression (.binary _ operator _) => operator.token.kind ∈ binaryOperators
  | expression (.logical _ operator _) => operator.token.kind ∈ [.kwOr, .kwAnd]
  | expression (.name target) | expression (.assign target _) => target.token.kind = .identifier
  | expression (.get _ property) | expression (.set _ property _) =>
    property.token.kind = .identifier
  | expression (.this keyword) => keyword.token.kind = .kwThis
  | expression (.super keyword name) =>
    keyword.token.kind = .kwSuper ∧ name.token.kind = .identifier
  | statement (.var name _) => name.kind = .identifier
  | statement (.class name _ _) => name.token.kind = .identifier
  | function f | method f => f.name.kind = .identifier
  | parameter name => name.kind = .identifier
  | superclass _ mention => mention.token.kind = .identifier
  | _ => True

/-- The node and all that lie in it are well formed. -/
inductive Sound : Node → Prop where
  | intro {node : Node} (here : node.WellFormed) (below : ∀ child ∈ node.children, child.Sound) :
      Sound node

theorem sound_iff {node : Node} :
    node.Sound ↔ node.WellFormed ∧ ∀ child ∈ node.children, child.Sound :=
  ⟨fun ⟨here, below⟩ => ⟨here, below⟩, fun ⟨here, below⟩ => ⟨here, below⟩⟩

theorem Sound.reached {trail trail' : Trail} {node node' : Node} (sound : node.Sound)
    (reaches : Reaches trail node trail' node') : node'.Sound := by
  induction reaches with
  | refl => exact sound
  | child _ here inductionHypothesis =>
    exact (sound_iff.1 inductionHypothesis).2 _ (List.mem_of_getElem? here)

theorem Sound.wellFormed {node : Node} (sound : node.Sound) : node.WellFormed := (sound_iff.1 sound).1

end Node

/-! ## Trees -/

def Expr.Sound (e : Expr) : Prop := (Node.expression e).Sound

def Stmt.Sound (s : Stmt) : Prop := (Node.statement s).Sound

/-- The name, the parameters and the body of a function are as they should be. -/
structure Function.Sound (f : Function) : Prop where
  name : f.name.kind = .identifier
  parameters : ∀ t ∈ f.parameters, t.kind = .identifier
  body : ∀ s ∈ f.body, s.Sound

theorem Expr.sound_iff {e : Expr} :
    e.Sound ↔ (Node.expression e).WellFormed ∧ ∀ child ∈ (Node.expression e).children, child.Sound :=
  Node.sound_iff

theorem Stmt.sound_iff {s : Stmt} :
    s.Sound ↔ (Node.statement s).WellFormed ∧ ∀ child ∈ (Node.statement s).children, child.Sound :=
  Node.sound_iff

theorem Node.sound_parameter {name : Token} : (Node.parameter name).Sound ↔ name.kind = .identifier := by
  rw [sound_iff]
  simp [WellFormed, children]

theorem Node.sound_superclass {name : Token} {mention : Occurrence} :
    (Node.superclass name mention).Sound ↔ mention.token.kind = .identifier := by
  rw [sound_iff]
  simp [WellFormed, children]

theorem Node.sound_function {f : Function} : (Node.function f).Sound ↔ f.Sound := by
  rw [sound_iff]
  simp only [children, List.forall_mem_append, List.forall_mem_map, sound_parameter]
  exact ⟨fun ⟨name, parameters, body⟩ => ⟨name, parameters, body⟩,
    fun ⟨name, parameters, body⟩ => ⟨name, parameters, body⟩⟩

theorem Node.sound_method {f : Function} : (Node.method f).Sound ↔ f.Sound := by
  rw [← sound_function, sound_iff, @sound_iff (.function f)]
  rfl

namespace Expr

variable {e left right : Expr} {operator : Occurrence} {target : Occurrence}

theorem sound_literal (value : Literal) : (Expr.literal value).Sound := by
  rw [sound_iff]
  simp [Node.WellFormed, Node.children]

@[simp] theorem sound_grouping : (Expr.grouping e).Sound ↔ e.Sound := by
  rw [sound_iff]
  simp [Node.WellFormed, Node.children, Sound]

@[simp] theorem sound_name : (Expr.name target).Sound ↔ target.token.kind = .identifier := by
  rw [sound_iff]
  simp [Node.WellFormed, Node.children]

@[simp] theorem sound_assign :
    (Expr.assign target e).Sound ↔ target.token.kind = .identifier ∧ e.Sound := by
  rw [sound_iff]
  simp [Node.WellFormed, Node.children, Sound]

@[simp] theorem sound_unary :
    (Expr.unary operator e).Sound ↔ operator.token.kind ∈ [.bang, .minus] ∧ e.Sound := by
  rw [sound_iff]
  simp [Node.WellFormed, Node.children, Sound]

@[simp] theorem sound_binary : (Expr.binary left operator right).Sound ↔
    operator.token.kind ∈ binaryOperators ∧ left.Sound ∧ right.Sound := by
  rw [sound_iff]
  simp [Node.WellFormed, Node.children, Sound]

@[simp] theorem sound_logical : (Expr.logical left operator right).Sound ↔
    operator.token.kind ∈ [.kwOr, .kwAnd] ∧ left.Sound ∧ right.Sound := by
  rw [sound_iff]
  simp [Node.WellFormed, Node.children, Sound]

@[simp] theorem sound_call {arguments : List Expr} :
    (Expr.call e operator arguments).Sound ↔ e.Sound ∧ ∀ a ∈ arguments, a.Sound := by
  rw [sound_iff]
  simp [Node.WellFormed, Node.children, Sound]

@[simp] theorem sound_get :
    (Expr.get e operator).Sound ↔ operator.token.kind = .identifier ∧ e.Sound := by
  rw [sound_iff]
  simp [Node.WellFormed, Node.children, Sound]

@[simp] theorem sound_set : (Expr.set left operator right).Sound ↔
    operator.token.kind = .identifier ∧ right.Sound ∧ left.Sound := by
  rw [sound_iff]
  simp [Node.WellFormed, Node.children, Sound]

@[simp] theorem sound_this : (Expr.this target).Sound ↔ target.token.kind = .kwThis := by
  rw [sound_iff]
  simp [Node.WellFormed, Node.children]

@[simp] theorem sound_super : (Expr.super target operator).Sound ↔
    target.token.kind = .kwSuper ∧ operator.token.kind = .identifier := by
  rw [sound_iff]
  simp [Node.WellFormed, Node.children]

end Expr

namespace Stmt

variable {e : Expr} {s : Stmt}

@[simp] theorem sound_expression : (Stmt.expression e).Sound ↔ e.Sound := by
  rw [sound_iff]
  simp [Node.WellFormed, Node.children, Expr.Sound]

@[simp] theorem sound_print : (Stmt.print e).Sound ↔ e.Sound := by
  rw [sound_iff]
  simp [Node.WellFormed, Node.children, Expr.Sound]

@[simp] theorem sound_var {name : Token} {initializer : Option Expr} :
    (Stmt.var name initializer).Sound ↔ name.kind = .identifier ∧ ∀ e ∈ initializer, e.Sound := by
  rw [sound_iff]
  simp [Node.WellFormed, Node.children, Expr.Sound]

@[simp] theorem sound_block {body : List Stmt} : (Stmt.block body).Sound ↔ ∀ s ∈ body, s.Sound := by
  rw [sound_iff]
  simp [Node.WellFormed, Node.children, Sound]

@[simp] theorem sound_ite {elseBranch : Option Stmt} : (Stmt.ite e s elseBranch).Sound ↔
    e.Sound ∧ s.Sound ∧ ∀ s ∈ elseBranch, s.Sound := by
  rw [sound_iff]
  simp [Node.WellFormed, Node.children, Expr.Sound, Sound]

@[simp] theorem sound_while : (Stmt.while e s).Sound ↔ e.Sound ∧ s.Sound := by
  rw [sound_iff]
  simp [Node.WellFormed, Node.children, Expr.Sound, Sound]

@[simp] theorem sound_function {f : Function} : (Stmt.function f).Sound ↔ f.Sound := by
  rw [sound_iff]
  simp [Node.WellFormed, Node.children, Node.sound_function]

@[simp] theorem sound_return {keyword : Token} {value : Option Expr} :
    (Stmt.return keyword value).Sound ↔ ∀ e ∈ value, e.Sound := by
  rw [sound_iff]
  simp [Node.WellFormed, Node.children, Expr.Sound]

@[simp] theorem sound_class {name : Occurrence} {parent : Option Occurrence}
    {methods : List Function} :
    (Stmt.class name parent methods).Sound ↔ name.token.kind = .identifier ∧
      (∀ o ∈ parent, o.token.kind = .identifier) ∧ ∀ f ∈ methods, f.Sound := by
  rw [sound_iff]
  simp [Node.WellFormed, Node.children, or_imp, forall_and, Node.sound_superclass, Node.sound_method]

end Stmt

/-! ## Parsing -/

namespace Grammar

theorem soundness_inherited : Inherited Expr.Sound Stmt.Sound Stmt.Sound Function.Sound where
  always := Expr.sound_literal _
  statement sound := sound
  expression := Stmt.sound_expression.2
  print := Stmt.sound_print.2
  block := Stmt.sound_block.2
  conditional tests branch others := Stmt.sound_ite.2 ⟨tests, branch, others⟩
  loop tests body := Stmt.sound_while.2 ⟨tests, body⟩
  result := Stmt.sound_return.2
  varDeclaration name value := Stmt.sound_var.2 ⟨name, value⟩
  function := Stmt.sound_function.2
  classDeclaration name parent methods := Stmt.sound_class.2 ⟨name, parent, methods⟩
  declaration name parameters body := ⟨name, parameters, body⟩

variable {expression operand : Parser Expr}

/-- The node of a layer is sound if its operator is one of the layer. -/
def Layer.Sound (layer : Layer) : Prop :=
  ∀ left operator right, operator.token.kind ∈ layer.operators → left.Sound → right.Sound →
    (layer.node left operator right).Sound

theorem layers_sound : ∀ layer ∈ layers, layer.Sound := by
  have listed : ∀ layer ∈ layers, (layer.node = .logical ∧ layer.operators ⊆ [.kwOr, .kwAnd]) ∨
      (layer.node = .binary ∧ layer.operators ⊆ binaryOperators) := by
    simp [layers, binaryOperators]
  intro layer member left operator right operators soundLeft soundRight
  obtain ⟨node, kinds⟩ | ⟨node, kinds⟩ := listed layer member
  · rw [node]
    exact Expr.sound_logical.2 ⟨kinds operators, soundLeft, soundRight⟩
  · rw [node]
    exact Expr.sound_binary.2 ⟨kinds operators, soundLeft, soundRight⟩

theorem Layer.Sound.foldl {layer : Layer} (sound : layer.Sound) {others : List (Occurrence × Expr)}
    (each : ∀ other ∈ others, other.1.token.kind ∈ layer.operators ∧ other.2.Sound) {first : Expr}
    (soundFirst : first.Sound) :
    (others.foldl (fun left (operator, right) => layer.node left operator right) first).Sound := by
  induction others generalizing first with
  | nil => exact soundFirst
  | cons other rest inductionHypothesis =>
    obtain ⟨⟨listed, soundOther⟩, each⟩ := List.forall_mem_cons.1 each
    exact inductionHypothesis each (sound first other.1 other.2 listed soundFirst soundOther)

theorem chain_gives (operands : Gives operand Expr.Sound) (tiers : List Layer)
    (sound : ∀ layer ∈ tiers, layer.Sound) : Gives (chain operand tiers) Expr.Sound := by
  induction tiers with
  | nil => exact operands
  | cons layer tighter inductionHypothesis =>
    obtain ⟨soundHere, soundTighter⟩ := List.forall_mem_cons.1 sound
    have tight := inductionHypothesis soundTighter
    refine tight.bind fun first soundFirst => (Gives.many fun _ => ?_).bind fun others each =>
      .pure (soundHere.foldl each soundFirst)
    refine (accept?_gives layer.operators).bind fun found listed => ?_
    cases found with
    | none => exact .pure (by simp)
    | some operator =>
      exact tight.bind fun right soundRight => .pure (by simpa using ⟨listed operator rfl, soundRight⟩)

/-- Applied to a sound expression, the suffix makes a sound one. -/
def Suffix.Sound : Suffix → Prop
  | .call _ arguments => ∀ a ∈ arguments, a.Sound
  | .get property => property.token.kind = .identifier

theorem Suffix.Sound.foldl {suffixes : List Suffix} (each : ∀ suffix ∈ suffixes, suffix.Sound)
    {first : Expr} (sound : first.Sound) : (suffixes.foldl Suffix.apply first).Sound := by
  induction suffixes generalizing first with
  | nil => exact sound
  | cons suffix rest inductionHypothesis =>
    obtain ⟨here, each⟩ := List.forall_mem_cons.1 each
    refine inductionHypothesis each ?_
    cases suffix with
    | call => exact Expr.sound_call.2 ⟨sound, here⟩
    | get => exact Expr.sound_get.2 ⟨here, sound⟩

section Operands

variable (expressions : Gives expression Expr.Sound)
include expressions

theorem arguments_gives : Gives (arguments expression) Suffix.Sound := by
  have rest : ∀ found : List Expr, (∀ a ∈ found, a.Sound) → Gives (do
      let paren ← expect .rightParen .noArgumentsEnd
      return Suffix.call paren found) Suffix.Sound := fun found each =>
    .after fun _ => .pure each
  exact .after fun _ => .ite (rest [] (by simp)) ((separated_gives _ expressions).bind rest)

theorem suffix_gives : Gives (suffix expression) fun found => ∀ suffix ∈ found, suffix.Sound := by
  refine .after fun _ => .ite ?_ (.after fun _ => .ite ?_ (.pure (by simp)))
  · exact (arguments_gives expressions).bind fun _ sound => .pure (by simpa using sound)
  · exact (expect_gives .identifier _).bind fun _ named => .pure (by simpa [Suffix.Sound] using named)

theorem primary_gives : Gives (primary expression) Expr.Sound := by
  refine .after fun found => ?_
  cases found with
  | none => exact fail_gives
  | some first =>
    dsimp only
    split
    · exact .pure (Expr.sound_literal _)
    · exact .pure (Expr.sound_literal _)
    · exact .pure (Expr.sound_literal _)
    · next keyword =>
      exact .after fun _ => (expect_gives .identifier _).bind fun _ named =>
        .pure (Expr.sound_super.2 ⟨keyword, named⟩)
    · next keyword => exact .pure (Expr.sound_this.2 keyword)
    · next named => exact .pure (Expr.sound_name.2 named)
    · exact expressions.bind fun _ sound => .after fun _ => .pure (Expr.sound_grouping.2 sound)
    · exact .pure (Expr.sound_literal _)

theorem operand_gives : Gives (Grammar.operand expression) Expr.Sound :=
  (primary_gives expressions).bind fun _ sound =>
    (Gives.many fun _ => suffix_gives expressions).bind fun _ each =>
      .pure (Suffix.Sound.foldl each sound)

end Operands

theorem assignment_gives (equals : Occurrence) {target value : Expr} (soundTarget : target.Sound)
    (soundValue : value.Sound) : Gives (assignment equals target value) Expr.Sound := by
  cases target with
  | name m => exact .pure (Expr.sound_assign.2 ⟨Expr.sound_name.1 soundTarget, soundValue⟩)
  | get object property =>
    obtain ⟨named, soundObject⟩ := Expr.sound_get.1 soundTarget
    exact .pure (Expr.sound_set.2 ⟨named, soundValue, soundObject⟩)
  | _ => exact .after fun _ => .pure soundTarget

mutual

theorem expression_gives : ∀ depth, Gives (Grammar.expression depth) Expr.Sound
  | 0 => .tooDeep
  | depth + 1 => by
    rw [Grammar.expression]
    refine (chain_gives (unary_gives depth) layers layers_sound).bind fun target soundTarget =>
      .after fun equals => ?_
    cases equals with
    | none => exact .pure soundTarget
    | some equals =>
      exact (expression_gives depth).bind fun value soundValue =>
        assignment_gives equals soundTarget soundValue

theorem unary_gives : ∀ depth, Gives (unary depth) Expr.Sound
  | 0 => .tooDeep
  | depth + 1 => by
    rw [unary]
    refine (accept?_gives [.bang, .minus]).bind fun operator listed => ?_
    cases operator with
    | none => exact operand_gives (expression_gives depth)
    | some operator =>
      exact (unary_gives depth).bind fun e sound =>
        .pure (Expr.sound_unary.2 ⟨listed operator rfl, sound⟩)

end

end Grammar

/-- Whatever tokens are parsed, the statements are sound. -/
theorem parse?_sound {depth start : Nat} {tokens : List Token} {parsed : Parse}
    (result : parse? depth start tokens = some parsed) : ∀ s ∈ parsed.statements, s.Sound :=
  parse?_inherits Grammar.soundness_inherited Grammar.expression_gives result

/-! ## Where declarations stand -/

/-- A list of statements is part of the node. -/
def Node.hasList : Node → Prop
  | program _ | statement (.block _) | function _ | method _ => True
  | _ => False

/-- What stands there stands immediately in a list of statements: of a program, a block or a function. -/
def Trail.InList (trail : Trail) : Prop := ∃ level ∈ trail.head?, level.1.hasList

/-- All declarations in the node stand in lists of statements. -/
def Node.WellPlaced : Node → Prop
  | program body => Stmt.AllWellPlaced body
  | statement s => s.WellPlaced
  | function f | method f => f.WellPlaced
  | _ => True

/-- A statement that is part of a node is well placed, and no declaration unless it stands in a list. -/
theorem Node.WellPlaced.statement_child {node : Node} (placed : node.WellPlaced) {s : Stmt}
    (child : .statement s ∈ node.children) :
    s.WellPlaced ∧ (s.declared? ≠ none → node.hasList) := by
  have listed : ∀ {body : List Stmt}, Stmt.AllWellPlaced body → s ∈ body → s.WellPlaced :=
    fun all member => (Stmt.allWellPlaced_iff _).1 all s member
  cases node with
  | program body => exact ⟨listed placed (by simpa [children] using child), fun _ => trivial⟩
  | function f | method f =>
    exact ⟨listed (Function.wellPlaced_body placed) (by simpa [children] using child), fun _ => trivial⟩
  | expression e => cases e <;> simp [children] at child
  | parameter | superclass => simp [children] at child
  | statement outer =>
    cases outer with
    | block body =>
      rw [WellPlaced, Stmt.WellPlaced] at placed
      exact ⟨listed placed (by simpa [children] using child), fun _ => trivial⟩
    -- The body of a loop and a branch stand in no list, and neither of them is a declaration.
    | «while» condition body =>
      rw [WellPlaced, Stmt.WellPlaced] at placed
      obtain rfl : s = body := by simpa [children] using child
      exact ⟨placed.2, fun declares => absurd placed.1 declares⟩
    | ite condition thenBranch elseBranch =>
      have branches : ∀ branch, branch = thenBranch ∨ branch ∈ elseBranch →
          branch.declared? = none ∧ branch.WellPlaced := by
        cases elseBranch <;> simp_all [WellPlaced, Stmt.WellPlaced]
      obtain ⟨plain, placed⟩ := branches s (by simpa [children] using child)
      exact ⟨placed, fun declares => absurd plain declares⟩
    | expression | print | var | function | «return» | «class» => simp [children] at child

theorem Node.WellPlaced.function_child {node : Node} (placed : node.WellPlaced) {f : Function}
    (child : .function f ∈ node.children ∨ .method f ∈ node.children) : f.WellPlaced := by
  cases node with
  | statement outer =>
    cases outer with
    | function g =>
      rw [WellPlaced, Stmt.WellPlaced] at placed
      obtain rfl : f = g := by simpa [children] using child
      exact placed
    | «class» name parent methods =>
      rw [WellPlaced, Stmt.WellPlaced] at placed
      exact (Function.allWellPlaced_iff methods).1 placed f (by simpa [children] using child)
    | expression | print | var | block | ite | «while» | «return» => simp [children] at child
  | expression e => cases e <;> simp [children] at child
  | program | function | method | parameter | superclass => simp [children] at child

theorem Node.WellPlaced.child {node part : Node} (placed : node.WellPlaced)
    (child : part ∈ node.children) : part.WellPlaced := by
  cases part with
  | statement s => exact (placed.statement_child child).1
  | function f => exact placed.function_child (.inl child)
  | method f => exact placed.function_child (.inr child)
  | expression | parameter | superclass => trivial
  | program body =>
    -- a program is part of nothing
    cases node with
    | statement s => cases s <;> simp [children] at child
    | expression e => cases e <;> simp [children] at child
    | program | function | method | parameter | superclass => simp [children] at child

theorem Node.WellPlaced.reached {trail trail' : Trail} {node node' : Node} (placed : node.WellPlaced)
    (reaches : Reaches trail node trail' node') : node'.WellPlaced := by
  induction reaches with
  | refl => exact placed
  | child _ here inductionHypothesis =>
    exact inductionHypothesis.child (List.mem_of_getElem? here)

/-- A declaration in a program that is well placed stands in a list of statements. -/
theorem Trail.inList_of_declared {program : Program} (placed : Stmt.AllWellPlaced program)
    {trail : Trail} {s : Stmt} (reaches : Reaches [] (.program program) trail (.statement s))
    (declares : s.declared? ≠ none) : trail.InList := by
  cases reaches with
  | @child _ node _ _ above here =>
    have whole : (Node.program program).WellPlaced := placed
    have listed := (whole.reached above).statement_child (List.mem_of_getElem? here)
    exact ⟨_, rfl, listed.2 declares⟩

/--
Whatever tokens are parsed, each node of the statements is well formed, and each declaration among them
stands in a list of statements.
-/
theorem parse?_nodes {depth start : Nat} {tokens : List Token} {parsed : Parse}
    (result : parse? depth start tokens = some parsed) {trail : Trail} {node : Node}
    (reaches : Reaches [] (.program parsed.statements) trail node) :
    node.WellFormed ∧ ∀ s, node = .statement s → s.declared? ≠ none → trail.InList := by
  have sound : (Node.program parsed.statements).Sound :=
    .intro trivial (List.forall_mem_map.2 (parse?_sound result))
  refine ⟨(sound.reached reaches).wellFormed, ?_⟩
  rintro s rfl declares
  exact Trail.inList_of_declared (parse?_wellPlaced result) reaches declares

end Lox
