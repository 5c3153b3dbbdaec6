import Lox.Syntax.Height
import Mathlib.Data.List.Forall2

/-!
# Trees that match

Two texts that differ in their layout only, or in where they stand in a session, have the same trees up to
the lines of tokens and the numbers of occurrences. A `Matching` says which tokens and which
occurrences of two texts correspond; trees match if they are built alike from corresponding ones.
-/

namespace Lox

/-- How the tokens of two texts correspond: those that do differ in their lines only. -/
structure Matching where
  tokens : Token → Token → Prop
  occurrences : Occurrence → Occurrence → Prop
  text : ∀ t t', tokens t t' → t'.kind = t.kind ∧ t'.lexeme = t.lexeme ∧ t'.literal = t.literal
  token : ∀ o o', occurrences o o' → tokens o.token o'.token

variable (M : Matching)

inductive Expr.Matched : Expr → Expr → Prop
  | literal (value : Literal) : Matched (.literal value) (.literal value)
  | grouping {inner inner' : Expr} : Matched inner inner' →
      Matched (.grouping inner) (.grouping inner')
  | name {target target' : Occurrence} : M.occurrences target target' →
      Matched (.name target) (.name target')
  | assign {target target' : Occurrence} {value value' : Expr} : M.occurrences target target' →
      Matched value value' → Matched (.assign target value) (.assign target' value')
  | unary {operator operator' : Occurrence} {operand operand' : Expr} :
      M.occurrences operator operator' → Matched operand operand' →
      Matched (.unary operator operand) (.unary operator' operand')
  | binary {left left' right right' : Expr} {operator operator' : Occurrence} : Matched left left' →
      M.occurrences operator operator' → Matched right right' →
      Matched (.binary left operator right) (.binary left' operator' right')
  | logical {left left' right right' : Expr} {operator operator' : Occurrence} :
      Matched left left' → M.occurrences operator operator' → Matched right right' →
      Matched (.logical left operator right) (.logical left' operator' right')
  | call {callee callee' : Expr} {paren paren' : Occurrence} {arguments arguments' : List Expr} :
      Matched callee callee' → M.occurrences paren paren' →
      List.Forall₂ Matched arguments arguments' →
      Matched (.call callee paren arguments) (.call callee' paren' arguments')
  | get {object object' : Expr} {property property' : Occurrence} : Matched object object' →
      M.occurrences property property' → Matched (.get object property) (.get object' property')
  | set {object object' value value' : Expr} {property property' : Occurrence} :
      Matched object object' → M.occurrences property property' → Matched value value' →
      Matched (.set object property value) (.set object' property' value')
  | this {keyword keyword' : Occurrence} : M.occurrences keyword keyword' →
      Matched (.this keyword) (.this keyword')
  | super {keyword keyword' : Occurrence} {method method' : Occurrence} :
      M.occurrences keyword keyword' → M.occurrences method method' →
      Matched (.super keyword method) (.super keyword' method')

mutual

inductive Stmt.Matched : Stmt → Stmt → Prop
  | expression {value value' : Expr} : value.Matched M value' →
      Stmt.Matched (.expression value) (.expression value')
  | print {value value' : Expr} : value.Matched M value' →
      Stmt.Matched (.print value) (.print value')
  | var {name name' : Token} {initializer initializer' : Option Expr} : M.tokens name name' →
      Option.Rel (Expr.Matched M) initializer initializer' →
      Stmt.Matched (.var name initializer) (.var name' initializer')
  | block {body body' : List Stmt} : List.Forall₂ Stmt.Matched body body' →
      Stmt.Matched (.block body) (.block body')
  | ite {condition condition' : Expr} {thenBranch thenBranch' : Stmt}
      {elseBranch elseBranch' : Option Stmt} : condition.Matched M condition' →
      Stmt.Matched thenBranch thenBranch' → Option.Rel Stmt.Matched elseBranch elseBranch' →
      Stmt.Matched (.ite condition thenBranch elseBranch) (.ite condition' thenBranch' elseBranch')
  | while {condition condition' : Expr} {body body' : Stmt} : condition.Matched M condition' →
      Stmt.Matched body body' → Stmt.Matched (.while condition body) (.while condition' body')
  | function {f f' : Function} : Function.Matched f f' → Stmt.Matched (.function f) (.function f')
  | return {keyword keyword' : Token} {value value' : Option Expr} : M.tokens keyword keyword' →
      Option.Rel (Expr.Matched M) value value' →
      Stmt.Matched (.return keyword value) (.return keyword' value')
  | class {name name' : Occurrence} {superclass superclass' : Option Occurrence}
      {methods methods' : List Function} : M.occurrences name name' →
      Option.Rel M.occurrences superclass superclass' →
      List.Forall₂ Function.Matched methods methods' →
      Stmt.Matched (.class name superclass methods) (.class name' superclass' methods')

inductive Function.Matched : Function → Function → Prop
  | mk {name name' : Token} {parameters parameters' : List Token} {body body' : List Stmt} :
      M.tokens name name' → List.Forall₂ M.tokens parameters parameters' →
      List.Forall₂ Stmt.Matched body body' →
      Function.Matched (.mk name parameters body) (.mk name' parameters' body')

end

variable {M}

/-! ## What matching tokens share -/

theorem Matching.kind {t t' : Token} (matched : M.tokens t t') : t'.kind = t.kind :=
  (M.text t t' matched).1

theorem Matching.lexeme {t t' : Token} (matched : M.tokens t t') : t'.lexeme = t.lexeme :=
  (M.text t t' matched).2.1

theorem Matching.literal {t t' : Token} (matched : M.tokens t t') : t'.literal = t.literal :=
  (M.text t t' matched).2.2

theorem Matching.name {o o' : Occurrence} (matched : M.occurrences o o') : o'.name = o.name :=
  Matching.lexeme (M.token o o' matched)

theorem Matching.lexemes {ts ts' : List Token} (matched : List.Forall₂ M.tokens ts ts') :
    ts'.map Token.lexeme = ts.map Token.lexeme := by
  induction matched with
  | nil => rfl
  | cons first _ inductionHypothesis =>
    rw [List.map_cons, List.map_cons, Matching.lexeme first, inductionHypothesis]

namespace Function.Matched

variable {f f' : Function}

theorem name (matched : f.Matched M f') : M.tokens f.name f'.name := by
  cases matched with
  | mk name _ _ => exact name

theorem parameters (matched : f.Matched M f') :
    List.Forall₂ M.tokens f.parameters f'.parameters := by
  cases matched with
  | mk _ parameters _ => exact parameters

theorem body (matched : f.Matched M f') : List.Forall₂ (Stmt.Matched M) f.body f'.body := by
  cases matched with
  | mk _ _ body => exact body

theorem isInitializer (matched : f.Matched M f') : f'.isInitializer = f.isInitializer := by
  rw [Function.isInitializer, Matching.lexeme matched.name]
  rfl

end Function.Matched

/-! ## Richer matchings -/

/-- The second matching relates all that the first one does. -/
instance : LE Matching where
  le M M' := (∀ t t', M.tokens t t' → M'.tokens t t') ∧
    ∀ o o', M.occurrences o o' → M'.occurrences o o'

/-- What one of two matchings relates. -/
def Matching.either (M M' : Matching) : Matching where
  tokens t t' := M.tokens t t' ∨ M'.tokens t t'
  occurrences o o' := M.occurrences o o' ∨ M'.occurrences o o'
  text t t' := fun either => either.elim (M.text t t') (M'.text t t')
  token o o' := fun either => either.imp (M.token o o') (M'.token o o')

theorem Matching.le_left (M M' : Matching) : M ≤ M.either M' :=
  ⟨fun _ _ => .inl, fun _ _ => .inl⟩

theorem Matching.le_right (M M' : Matching) : M' ≤ M.either M' :=
  ⟨fun _ _ => .inr, fun _ _ => .inr⟩

section Richer

variable {M' : Matching}

mutual

theorem Expr.Matched.mono (le : M ≤ M') : ∀ {e e' : Expr}, e.Matched M e' → e.Matched M' e'
  | _, _, .literal value => .literal value
  | _, _, .grouping inner => .grouping (inner.mono le)
  | _, _, .name target => .name (le.2 _ _ target)
  | _, _, .assign target value => .assign (le.2 _ _ target) (value.mono le)
  | _, _, .unary operator operand => .unary (le.2 _ _ operator) (operand.mono le)
  | _, _, .binary left operator right => .binary (left.mono le) (le.2 _ _ operator) (right.mono le)
  | _, _, .logical left operator right =>
    .logical (left.mono le) (le.2 _ _ operator) (right.mono le)
  | _, _, .call callee paren arguments =>
    .call (callee.mono le) (le.2 _ _ paren) (Expr.matched_mono le arguments)
  | _, _, .get object property => .get (object.mono le) (le.2 _ _ property)
  | _, _, .set object property value => .set (object.mono le) (le.2 _ _ property) (value.mono le)
  | _, _, .this keyword => .this (le.2 _ _ keyword)
  | _, _, .super keyword method => .super (le.2 _ _ keyword) (le.2 _ _ method)

theorem Expr.matched_mono (le : M ≤ M') : ∀ {es es' : List Expr},
    List.Forall₂ (Expr.Matched M) es es' → List.Forall₂ (Expr.Matched M') es es'
  | _, _, .nil => .nil
  | _, _, .cons first rest => .cons (first.mono le) (Expr.matched_mono le rest)

end

theorem Expr.matched_mono_option (le : M ≤ M') {e e' : Option Expr}
    (matched : Option.Rel (Expr.Matched M) e e') : Option.Rel (Expr.Matched M') e e' := by
  cases matched with
  | none => exact .none
  | some matched => exact .some (matched.mono le)

mutual

theorem Stmt.Matched.mono (le : M ≤ M') : ∀ {s s' : Stmt}, s.Matched M s' → s.Matched M' s'
  | _, _, .expression value => .expression (value.mono le)
  | _, _, .print value => .print (value.mono le)
  | _, _, .var name initializer => .var (le.1 _ _ name) (Expr.matched_mono_option le initializer)
  | _, _, .block body => .block (Stmt.matched_mono le body)
  | _, _, .ite condition thenBranch .none => .ite (condition.mono le) (thenBranch.mono le) .none
  | _, _, .ite condition thenBranch (.some elseBranch) =>
    .ite (condition.mono le) (thenBranch.mono le) (.some (elseBranch.mono le))
  | _, _, .while condition body => .while (condition.mono le) (body.mono le)
  | _, _, .function f => .function (f.mono le)
  | _, _, .return keyword value => .return (le.1 _ _ keyword) (Expr.matched_mono_option le value)
  | _, _, .class name .none methods =>
    .class (le.2 _ _ name) .none (Function.matched_mono le methods)
  | _, _, .class name (.some superclass) methods =>
    .class (le.2 _ _ name) (.some (le.2 _ _ superclass)) (Function.matched_mono le methods)

theorem Stmt.matched_mono (le : M ≤ M') : ∀ {ss ss' : List Stmt},
    List.Forall₂ (Stmt.Matched M) ss ss' → List.Forall₂ (Stmt.Matched M') ss ss'
  | _, _, .nil => .nil
  | _, _, .cons first rest => .cons (first.mono le) (Stmt.matched_mono le rest)

theorem Function.Matched.mono (le : M ≤ M') : ∀ {f f' : Function},
    f.Matched M f' → f.Matched M' f'
  | _, _, .mk name parameters body =>
    .mk (le.1 _ _ name) (parameters.imp fun _ _ => le.1 _ _) (Stmt.matched_mono le body)

theorem Function.matched_mono (le : M ≤ M') : ∀ {fs fs' : List Function},
    List.Forall₂ (Function.Matched M) fs fs' → List.Forall₂ (Function.Matched M') fs fs'
  | _, _, .nil => .nil
  | _, _, .cons first rest => .cons (first.mono le) (Function.matched_mono le rest)

end

end Richer

/-! ## Height -/

mutual

theorem Expr.Matched.fits : ∀ {e e' : Expr}, e.Matched M e' → ∀ n, e'.fits n = e.fits n
  | _, _, _, 0 => by simp [Expr.fits]
  | _, _, .literal _, _ + 1 => rfl
  | _, _, .grouping inner, n + 1 => inner.fits n
  | _, _, .name _, _ + 1 => rfl
  | _, _, .assign _ value, n + 1 => value.fits n
  | _, _, .unary _ operand, n + 1 => operand.fits n
  | _, _, .binary left _ right, n + 1 => by simp only [Expr.fits, left.fits n, right.fits n]
  | _, _, .logical left _ right, n + 1 => by simp only [Expr.fits, left.fits n, right.fits n]
  | _, _, .call callee _ arguments, n + 1 => by
    simp only [Expr.fits, callee.fits n, Expr.allFit_matched arguments n]
  | _, _, .get object _, n + 1 => object.fits n
  | _, _, .set object _ value, n + 1 => by simp only [Expr.fits, object.fits n, value.fits n]
  | _, _, .this _, _ + 1 => rfl
  | _, _, .super _ _, _ + 1 => rfl

theorem Expr.allFit_matched : ∀ {es es' : List Expr}, List.Forall₂ (Expr.Matched M) es es' →
    ∀ n, Expr.allFit es' n = Expr.allFit es n
  | _, _, .nil, _ => rfl
  | _, _, .cons first rest, n => by
    simp only [Expr.allFit, first.fits n, Expr.allFit_matched rest n]

end

mutual

theorem Stmt.Matched.fits : ∀ {s s' : Stmt}, s.Matched M s' → ∀ n, s'.fits n = s.fits n
  | _, _, _, 0 => by simp [Stmt.fits]
  | _, _, .expression value, n + 1 => value.fits n
  | _, _, .print value, n + 1 => value.fits n
  | _, _, .var _ .none, _ + 1 => rfl
  | _, _, .var _ (.some initializer), n + 1 => initializer.fits n
  | _, _, .block body, n + 1 => Stmt.allFit_matched body n
  | _, _, .ite condition thenBranch .none, n + 1 => by
    simp only [Stmt.fits, condition.fits n, thenBranch.fits n]
  | _, _, .ite condition thenBranch (.some elseBranch), n + 1 => by
    simp only [Stmt.fits, condition.fits n, thenBranch.fits n, elseBranch.fits n]
  | _, _, .while condition body, n + 1 => by simp only [Stmt.fits, condition.fits n, body.fits n]
  | _, _, .function f, n + 1 => f.fits n
  | _, _, .return _ .none, _ + 1 => rfl
  | _, _, .return _ (.some value), n + 1 => value.fits n
  | _, _, .class _ _ methods, n + 1 => Function.allFit_matched methods n

theorem Stmt.allFit_matched : ∀ {ss ss' : List Stmt}, List.Forall₂ (Stmt.Matched M) ss ss' →
    ∀ n, Stmt.allFit ss' n = Stmt.allFit ss n
  | _, _, .nil, _ => rfl
  | _, _, .cons first rest, n => by
    simp only [Stmt.allFit, first.fits n, Stmt.allFit_matched rest n]

theorem Function.Matched.fits : ∀ {f f' : Function}, f.Matched M f' → ∀ n, f'.fits n = f.fits n
  | _, _, .mk _ _ body, n => Stmt.allFit_matched body n

theorem Function.allFit_matched : ∀ {fs fs' : List Function},
    List.Forall₂ (Function.Matched M) fs fs' → ∀ n, Function.allFit fs' n = Function.allFit fs n
  | _, _, .nil, _ => rfl
  | _, _, .cons first rest, n => by
    simp only [Function.allFit, first.fits n, Function.allFit_matched rest n]

end

end Lox
