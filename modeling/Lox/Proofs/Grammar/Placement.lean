import Lox.Proofs.Grammar.Upcoming
import Lox.Proofs.Scope.Subjects

/-!
# What the parser yields

Whatever tokens it gets, and however they are spelled, what the parser yields has each property that
trees inherit from their parts (`statement_gives`, `declaration_gives`). So it yields only trees in which
no declaration is a branch of a conditional or the body of a loop.
-/

namespace Lox.Grammar

variable {α β : Type}

/-- Each result of the parser has the property. -/
def Gives (p : Parser α) (Q : α → Prop) : Prop := ∀ s a s', p s = .ok a s' → Q a

namespace Gives

variable {p : Parser α} {Q : α → Prop}

theorem any (p : Parser α) : Gives p fun _ => True := fun _ _ _ _ => trivial

theorem pure {a : α} (holds : Q a) : Gives (pure a) Q := by
  intro s b s' result
  cases result
  exact holds

theorem bind {f : α → Parser β} {R : β → Prop} (first : Gives p Q)
    (second : ∀ a, Q a → Gives (f a) R) : Gives (p >>= f) R := by
  intro s b s'' result
  change EStateM.bind p f s = .ok b s'' at result
  rw [EStateM.bind] at result
  cases outcome : p s with
  | ok a s' =>
    rw [outcome] at result
    exact second a (first s a s' outcome) s' b s'' result
  | error halt s' =>
    rw [outcome] at result
    cases result

/-- What does not depend on the result of the first parser holds after it. -/
theorem after {f : α → Parser β} {R : β → Prop} (second : ∀ a, Gives (f a) R) :
    Gives (p >>= f) R :=
  (any p).bind fun a _ => second a

theorem map {f : α → β} {R : β → Prop} (gives : Gives p Q) (mapped : ∀ a, Q a → R (f a)) :
    Gives (f <$> p) R :=
  gives.bind fun a holds => pure (mapped a holds)

theorem ite {c : Prop} [Decidable c] {q : Parser α} (yes : Gives p Q) (no : Gives q Q) :
    Gives (if c then p else q) Q := by
  split
  · exact yes
  · exact no

theorem tooDeep : Gives (α := α) tooDeep Q := by
  intro s a s' result
  cases result

theorem manyFrom {step : Nat → Parser (Option α)}
    (gives : ∀ n, Gives (step n) fun found => ∀ a ∈ found, Q a) (fuel count : Nat)
    {found : List α} (before : ∀ a ∈ found, Q a) :
    Gives (manyFrom step fuel count found) fun found => ∀ a ∈ found, Q a := by
  induction fuel generalizing count found with
  | zero => exact pure (by simpa using before)
  | succ fuel inductionHypothesis =>
    refine (gives count).bind fun result holds => ?_
    cases result with
    | none => exact pure (by simpa using before)
    | some a => exact inductionHypothesis _ (List.forall_mem_cons.2 ⟨holds a rfl, before⟩)

theorem many {step : Nat → Parser (Option α)}
    (gives : ∀ n, Gives (step n) fun found => ∀ a ∈ found, Q a) :
    Gives (many step) fun found => ∀ a ∈ found, Q a :=
  fun s => manyFrom gives _ 0 (by simp) s

theorem recovering (gives : Gives p Q) : Gives (recovering p) fun found => ∀ a ∈ found, Q a := by
  intro s found s' result
  rw [Grammar.recovering] at result
  cases outcome : p s with
  | ok a s'' =>
    rw [outcome] at result
    cases result
    simpa using gives s a _ outcome
  | error halt s'' =>
    rw [outcome] at result
    cases halt <;> cases result
    simp

end Gives

/-! ## Tokens -/

theorem accept?_gives (kinds : List TokenKind) :
    Gives (accept? kinds) fun found => ∀ o ∈ found, o.token.kind ∈ kinds := by
  intro s found s' result
  obtain ⟨ahead, position, last, errors⟩ := s
  cases ahead with
  | nil =>
    cases result
    simp
  | cons t rest =>
    simp only [accept?] at result
    split at result
    · next accepted =>
      cases result
      simpa using accepted
    · cases result
      simp

theorem fail_gives {fault : ParseFault} {Q : α → Prop} : Gives (fail fault) Q :=
  .after fun _ s a s' result => by cases result

theorem expect_gives (kind : TokenKind) (fault : ParseFault) :
    Gives (expect kind fault) fun o => o.token.kind = kind := by
  refine (accept?_gives [kind]).bind fun found listed => ?_
  cases found with
  | none => exact fail_gives
  | some o => exact .pure (List.mem_singleton.1 (listed o rfl))

theorem separated_gives {item : Parser α} {Q : α → Prop} (tooMany : ParseFault)
    (gives : Gives item Q) : Gives (separated tooMany item) fun all => ∀ a ∈ all, Q a := by
  refine gives.bind fun first holds => ((Gives.many fun count => ?_).bind fun others more =>
    .pure (List.forall_mem_cons.2 ⟨holds, more⟩))
  have another : Gives (do return some (← item)) fun found => ∀ a ∈ found, Q a :=
    gives.bind fun a holds => .pure (by simpa using holds)
  refine .after fun comma => .ite ?_ (.pure (by simp))
  dsimp only
  exact .ite (.after fun _ => another) another

/-! ## Statements -/

/--
Properties of expressions, of statements that are no declarations, of all statements and of functions that
each tree inherits from its parts and from the kinds of its tokens.
-/
structure Inherited (E : Expr → Prop) (S D : Stmt → Prop) (F : Function → Prop) : Prop where
  /-- The condition of a loop that has none. -/
  always : E (.literal (.bool true))
  statement : ∀ {s : Stmt}, S s → D s
  expression : ∀ {value : Expr}, E value → S (.expression value)
  print : ∀ {value : Expr}, E value → S (.print value)
  block : ∀ {body : List Stmt}, (∀ s ∈ body, D s) → S (.block body)
  conditional : ∀ {condition : Expr} {thenBranch : Stmt} {elseBranch : Option Stmt}, E condition →
    S thenBranch → (∀ s ∈ elseBranch, S s) → S (.ite condition thenBranch elseBranch)
  loop : ∀ {condition : Expr} {body : Stmt}, E condition → S body → S (.while condition body)
  result : ∀ {keyword : Token} {value : Option Expr}, (∀ e ∈ value, E e) → S (.return keyword value)
  varDeclaration : ∀ {name : Token} {initializer : Option Expr}, name.kind = .identifier →
    (∀ e ∈ initializer, E e) → D (.var name initializer)
  function : ∀ {f : Function}, F f → D (.function f)
  classDeclaration : ∀ {name : Occurrence} {parent : Option Occurrence} {methods : List Function},
    name.token.kind = .identifier → (∀ o ∈ parent, o.token.kind = .identifier) →
    (∀ f ∈ methods, F f) → D (.class name parent methods)
  declaration : ∀ {name : Token} {parameters : List Token} {body : List Stmt},
    name.kind = .identifier → (∀ t ∈ parameters, t.kind = .identifier) → (∀ s ∈ body, D s) →
    F (.mk name parameters body)

variable {expression : Parser Expr} {statement : Parser Stmt}
  {declaration : Parser (Option Stmt)} {E : Expr → Prop} {S D : Stmt → Prop} {F : Function → Prop}

theorem forall_mem_filterMap_id {found : List (Option Stmt)} (each : ∀ s ∈ found, ∀ t ∈ s, D t) :
    ∀ s ∈ found.filterMap id, D s := by
  intro s member
  obtain ⟨t, present, equal⟩ := List.mem_filterMap.1 member
  exact each t present s equal

/-- A part that is left out in one case. -/
theorem Gives.optional {p : Parser α} {Q : α → Prop} {f : Option α → Parser β} {R : β → Prop}
    (condition : Parser Bool) (gives : Gives p Q)
    (rest : ∀ a, (∀ b ∈ a, Q b) → Gives (f a) R) :
    Gives (condition >>= fun holds => if holds = true then some <$> p >>= f else Pure.pure none >>= f)
      R := by
  have present : Gives (some <$> p) fun a => ∀ b ∈ a, Q b := gives.map (by simp)
  exact .after fun _ => .ite (present.bind rest) (rest none (by simp))

theorem Gives.unless {p : Parser α} {Q : α → Prop} {f : Option α → Parser β} {R : β → Prop}
    (condition : Parser Bool) (gives : Gives p Q)
    (rest : ∀ a, (∀ b ∈ a, Q b) → Gives (f a) R) :
    Gives (condition >>= fun holds => if holds = true then Pure.pure none >>= f else some <$> p >>= f)
      R := by
  have present : Gives (some <$> p) fun a => ∀ b ∈ a, Q b := gives.map (by simp)
  exact .after fun _ => .ite (rest none (by simp)) (present.bind rest)

section Inherited

variable (inherited : Inherited E S D F) (expressions : Gives expression E)

section Declarations

variable (declarations : Gives declaration fun found => ∀ s ∈ found, D s)
include declarations

theorem block_gives : Gives (block declaration) fun body => ∀ s ∈ body, D s := by
  refine (Gives.many (Q := fun found => ∀ s ∈ found, D s) fun n => ?_).bind
    fun found holds => .after fun _ => .pure (forall_mem_filterMap_id holds)
  exact .after fun closed => .after fun ended =>
    .ite (.pure (by simp)) (declarations.bind fun s holds => .pure (by simpa using holds))

include inherited

theorem function_gives (form : FunctionForm) : Gives (function form declaration) F := by
  refine (expect_gives _ _).bind fun name named => .after fun _ => .after fun closed => ?_
  have rest : ∀ parameters : List Occurrence, (∀ o ∈ parameters, o.token.kind = .identifier) →
      Gives (do
        skip .rightParen .noParametersEnd
        skip .leftBrace (.noFunctionBody form)
        let body ← block declaration
        return .mk name.token (parameters.map Occurrence.token) body) F := fun parameters listed =>
    .after fun _ => .after fun _ => (block_gives declarations).bind fun body holds =>
      .pure (inherited.declaration named (List.forall_mem_map.2 listed) holds)
  exact .ite (rest [] (by simp)) ((separated_gives _ (expect_gives _ _)).bind rest)

theorem classDeclaration_gives : Gives (classDeclaration declaration) D := by
  have parents : Gives superclass fun parent => ∀ o ∈ parent, o.token.kind = .identifier :=
    .after fun _ => .ite ((expect_gives _ _).bind fun o named => .pure (by simpa using named))
      (.pure (by simp))
  refine (expect_gives _ _).bind fun name named => parents.bind fun parent inherits =>
    .after fun _ => (Gives.many (Q := F) fun n => ?_).bind fun methods holds =>
      .after fun _ => .pure (inherited.classDeclaration named inherits holds)
  exact .after fun closed => .after fun ended => .ite (.pure (by simp))
    ((function_gives inherited declarations .method).bind fun f holds => .pure (by simpa using holds))

end Declarations

include inherited expressions

theorem varDeclaration_gives : Gives (varDeclaration expression) D :=
  (expect_gives _ _).bind fun _ named => .optional _ expressions fun _ holds =>
    .after fun _ => .pure (inherited.varDeclaration named holds)

theorem expressionStatement_gives : Gives (expressionStatement expression) S :=
  expressions.bind fun _ holds => .after fun _ => .pure (inherited.expression holds)

theorem printStatement_gives : Gives (printStatement expression) S :=
  expressions.bind fun _ holds => .after fun _ => .pure (inherited.print holds)

theorem returnStatement_gives (keyword : Token) : Gives (returnStatement keyword expression) S :=
  .unless _ expressions fun _ holds => .after fun _ => .pure (inherited.result holds)

section Statements

variable (statements : Gives statement S)

theorem forInitializer_gives :
    Gives (forInitializer expression) fun found => ∀ s ∈ found, D s := by
  refine .after fun _ => .ite (.pure (by simp)) (.after fun _ => .ite ?_ ?_)
  · exact (varDeclaration_gives inherited expressions).map (by simp)
  · exact (expressionStatement_gives inherited expressions).map fun s holds => by
      simpa using inherited.statement holds

include statements

theorem whileStatement_gives : Gives (whileStatement expression statement) S :=
  .after fun _ => expressions.bind fun _ tests => .after fun _ => statements.bind fun _ holds =>
    .pure (inherited.loop tests holds)

theorem ifStatement_gives : Gives (ifStatement expression statement) S :=
  .after fun _ => expressions.bind fun _ tests => .after fun _ => statements.bind fun _ holds =>
    .optional _ statements fun _ others => .pure (inherited.conditional tests holds others)

omit inherited expressions statements in
/-- The tree of a loop with clauses that have the properties. -/
def IsLoop (E : Expr → Prop) (S D : Stmt → Prop) (s : Stmt) : Prop :=
  ∃ initializer condition increment body, s = forLoop initializer condition increment body ∧
    (∀ first ∈ initializer, D first) ∧ (∀ e ∈ condition, E e) ∧ (∀ e ∈ increment, E e) ∧ S body

theorem forStatement_clauses : Gives (forStatement expression statement) (IsLoop E S D) :=
  .after fun _ => (forInitializer_gives inherited expressions).bind fun _ first =>
    .unless _ expressions fun _ tests => .after fun _ =>
      .unless _ expressions fun _ steps => .after fun _ => statements.bind fun _ holds =>
        .pure ⟨_, _, _, _, rfl, first, tests, steps, holds⟩

omit expressions statements in
theorem IsLoop.inherits {s : Stmt} (loop : IsLoop E S D s) : S s := by
  obtain ⟨initializer, condition, increment, body, rfl, first, tests, steps, holds⟩ := loop
  have tests : E (condition.getD (.literal (.bool true))) := by
    cases condition with
    | none => exact inherited.always
    | some e => exact tests e rfl
  have repeats : S (forLoop none condition increment body) := by
    refine inherited.loop tests ?_
    cases increment with
    | none => exact holds
    | some e =>
      have step := inherited.statement (inherited.expression (steps e rfl))
      exact inherited.block (by simpa using ⟨inherited.statement holds, step⟩)
  cases initializer with
  | none => exact repeats
  | some s => exact inherited.block (by simpa using ⟨first s rfl, inherited.statement repeats⟩)

theorem forStatement_gives : Gives (forStatement expression statement) S := by
  intro s tree s' result
  exact IsLoop.inherits inherited
    (forStatement_clauses inherited expressions statements s tree s' result)

end Statements

mutual

theorem declaration_gives (depth : Nat) :
    Gives (Grammar.declaration expression depth) fun found => ∀ s ∈ found, D s := by
  cases depth with
  | zero => exact .tooDeep
  | succ depth =>
    rw [Grammar.declaration]
    refine Gives.recovering (.after fun first => ?_)
    cases first with
    | none =>
      intro s a s' result
      exact inherited.statement (statement_gives depth s a s' result)
    | some first =>
      dsimp only
      split
      · exact classDeclaration_gives inherited (declaration_gives depth)
      · exact (function_gives inherited (declaration_gives depth) .function).bind
          fun f holds => .pure (inherited.function holds)
      · exact varDeclaration_gives inherited expressions

theorem statement_gives (depth : Nat) : Gives (Grammar.statement expression depth) S := by
  cases depth with
  | zero => exact .tooDeep
  | succ depth =>
    rw [Grammar.statement]
    refine .after fun first => ?_
    cases first with
    | none => exact expressionStatement_gives inherited expressions
    | some first =>
      dsimp only
      split
      · exact forStatement_gives inherited expressions (statement_gives depth)
      · exact ifStatement_gives inherited expressions (statement_gives depth)
      · exact printStatement_gives inherited expressions
      · exact returnStatement_gives inherited expressions first.token
      · exact whileStatement_gives inherited expressions (statement_gives depth)
      · exact (block_gives (declaration_gives depth)).bind
          fun body holds => .pure (inherited.block holds)

end

end Inherited

end Grammar

open Grammar in
/-- A property that trees inherit holds of all that a parse yields, whatever tokens are parsed. -/
theorem parse?_inherits {E : Expr → Prop} {S D : Stmt → Prop} {F : Function → Prop}
    (inherited : Inherited E S D F) (expressions : ∀ depth, Gives (Grammar.expression depth) E)
    {depth start : Nat} {tokens : List Token} {parsed : Parse}
    (result : parse? depth start tokens = some parsed) : ∀ s ∈ parsed.statements, D s := by
  -- A declaration that recovered is left out of the list; of the others the property is known.
  have gives : Gives (Grammar.program depth) fun statements => ∀ s ∈ statements, D s := by
    refine (Gives.many (Q := fun found => ∀ s ∈ found, D s) fun n => ?_).bind
      fun found holds => .pure (forall_mem_filterMap_id holds)
    exact .after fun _ => .ite (.pure (by simp))
      ((declaration_gives inherited (expressions depth) depth).bind
        fun s holds => .pure (by simpa using holds))
  obtain ⟨s, outcome, -⟩ := parse?_eq_some_iff.1 result
  exact gives _ _ _ outcome

/-! ## Where declarations stand -/

/-- A statement that is not a declaration, and in which all declarations stand in lists. -/
def Grammar.Placed (s : Stmt) : Prop := s.declared? = none ∧ s.WellPlaced

theorem Grammar.placed_inherited :
    Inherited (fun _ => True) Placed Stmt.WellPlaced Function.WellPlaced where
  always := trivial
  statement placed := placed.2
  expression _ := ⟨rfl, trivial⟩
  print _ := ⟨rfl, trivial⟩
  block placed := ⟨rfl, by rwa [Stmt.WellPlaced, Stmt.allWellPlaced_iff]⟩
  conditional := @fun _ _ elseBranch _ placed others => by
    refine ⟨rfl, ?_⟩
    cases elseBranch with
    | none => rwa [Stmt.WellPlaced]
    | some elseBranch =>
      rw [Stmt.WellPlaced]
      exact ⟨placed, others elseBranch rfl⟩
  loop _ placed := ⟨rfl, by rwa [Stmt.WellPlaced]⟩
  result _ := ⟨rfl, trivial⟩
  varDeclaration _ _ := trivial
  function placed := by rwa [Stmt.WellPlaced]
  classDeclaration _ _ placed := by rwa [Stmt.WellPlaced, Function.allWellPlaced_iff]
  declaration _ _ placed := by rwa [Function.WellPlaced, Stmt.allWellPlaced_iff]

/-- Whatever tokens are parsed, declarations stand only where the grammar allows them. -/
theorem parse?_wellPlaced {depth start : Nat} {tokens : List Token} {parsed : Parse}
    (result : parse? depth start tokens = some parsed) :
    Stmt.AllWellPlaced parsed.statements :=
  (Stmt.allWellPlaced_iff _).2
    (parse?_inherits Grammar.placed_inherited (fun _ => .any _) result)

end Lox
