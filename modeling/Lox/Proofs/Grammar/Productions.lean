import Lox.Proofs.Grammar.Acceptance

/-!
# How a parser reads productions

For each production of the grammar there is a lemma that says how the parser goes through its words,
given that it does so for the parts. After an expression, no token may come with which the parser would
go on, and after a statement to which an `else` could belong, no `else`.
-/

namespace Lox.Grammar

variable {α β : Type} {w w' : List Occurrence} {P P' : State → Prop}

/-! ## What may not follow -/

/-- The tokens with which an operand may go on. -/
def afterOperand : List TokenKind := [.leftParen, .dot]

/-- The tokens with which a chain may go on. -/
def afterChain (tiers : List Tier) : List TokenKind :=
  afterOperand ++ tiers.flatMap Tier.operators

/-- The tokens with which an expression may go on. -/
def afterExpression : List TokenKind := .equal :: afterChain Tier.all

def AfterStatement (dangling : Bool) (s : State) : Prop := dangling = true → s.Avoids [.kwElse]

/-- A token of the kinds is not among those that may not follow. -/
theorem Terminal.ends {kinds excluded : List TokenKind} (t : Terminal kinds)
    (others : ∀ kind ∈ kinds, kind ∉ excluded) :
    Before (State.Avoids excluded) (t.occurrence :: w) P :=
  t.before fun _ meets => meets.avoids others

theorem Starts.ends {kinds excluded : List TokenKind} (starts : Starts kinds w)
    (others : ∀ kind ∈ kinds, kind ∉ excluded) : Before (State.Avoids excluded) w P :=
  starts.before fun _ meets => meets.avoids others

theorem Starts.length_pos {kinds : List TokenKind} (starts : Starts kinds w) : 0 < w.length := by
  obtain ⟨o, rest, rfl, -⟩ := starts
  exact Nat.succ_pos _

/-- The same token as one of more kinds. -/
def Terminal.widen {kinds kinds' : List TokenKind} (t : Terminal kinds)
    (more : ∀ kind ∈ kinds, kind ∈ kinds') : Terminal kinds' :=
  ⟨t.occurrence, more _ t.kind_mem⟩

/-! ## Optional parts -/

/-- The part is absent, or it is there and may be followed by anything but the excluded tokens. -/
def AcceptsOptional (p : Parser α) (w : List Occurrence) (starts excluded : List TokenKind)
    (found : Option α) : Prop :=
  (w = [] ∧ found = none) ∨
    ∃ a, found = some a ∧ Starts starts w ∧ Accepts p w (State.Avoids excluded) a

/-- A part that is left out if the token that closes it is next. -/
theorem AcceptsOptional.unless {p : Parser α} {kind : TokenKind} {found : Option α}
    {f : Option α → Parser β} {b : β} {starts excluded : List TokenKind}
    (part : AcceptsOptional p w starts excluded found) (notFirst : ∀ k ∈ starts, k ∉ [kind])
    (notExcluded : ∀ k ∈ [kind], k ∉ excluded) (t : Terminal [kind])
    (rest : Accepts (f found) (t.occurrence :: w') P b) :
    Accepts (next kind >>= fun closed =>
        if closed = true then pure none >>= f else some <$> p >>= f)
      (w ++ t.occurrence :: w') P b := by
  obtain ⟨rfl, rfl⟩ | ⟨a, rfl, first, accepts⟩ := part
  · exact .next_true rest (t.before fun _ meets => meets)
  · have both : Accepts (some <$> p >>= f) (w ++ t.occurrence :: w') P b :=
      accepts.map.bind rest (t.ends notExcluded)
    exact .next_false both ((first.append _).ends notFirst)

/-! ## Chains of operators -/

/-- The operators of a tier, as a layer of the parser. -/
def Tier.layer (tier : Tier) : Layer := ⟨tier.operators, tier.build⟩

theorem layers_eq : layers = Tier.all.map Tier.layer := rfl

theorem Tier.operators_disjoint (tier other : Tier) :
    ∀ kind ∈ tier.operators, kind ∈ other.operators → tier = other := by
  cases tier <;> cases other <;> decide

theorem Tier.operators_noSuffix (tier : Tier) : ∀ kind ∈ tier.operators, kind ∉ afterOperand := by
  cases tier <;> decide

theorem Tier.operators_fresh {tier : Tier} {tighter : List Tier} (distinct : tier ∉ tighter) :
    ∀ kind ∈ tier.operators, kind ∉ afterChain tighter := by
  intro kind here there
  rcases List.mem_append.1 there with suffix | operator
  · exact tier.operators_noSuffix kind here suffix
  · obtain ⟨other, listed, operates⟩ := List.mem_flatMap.1 operator
    exact distinct (tier.operators_disjoint other kind here operates ▸ listed)

/-- One more operator of a tier and its right operand. -/
def operation (operand : Parser Expr) (tier : Tier) (tighter : List Tier) :
    Nat → Parser (Option (Occurrence × Expr)) := fun _ => do
  match ← accept? tier.operators with
  | none => return none
  | some operator => return some (operator, ← chain operand (tighter.map Tier.layer))

/-- The tree of an operand with operations behind it. -/
def Tier.foldl (tier : Tier) (first : Expr) (others : List (Occurrence × Expr)) : Expr :=
  others.foldl (fun left (operator, right) => tier.build left operator right) first

theorem chain_cons (operand : Parser Expr) (tier : Tier) (tighter : List Tier) :
    chain operand ((tier :: tighter).map Tier.layer) = (do
      let first ← chain operand (tighter.map Tier.layer)
      let others ← many (operation operand tier tighter)
      return tier.foldl first others) := rfl

section Chains

variable {operand : Parser Expr} {tier : Tier} {tighter : List Tier} {e right : Expr}

theorem afterChain_cons {s : State} (avoids : s.Avoids (afterChain (tier :: tighter))) :
    s.Avoids tier.operators ∧ s.Avoids (afterChain tighter) := by
  constructor
  · apply avoids.mono
    intro kind here
    simp [afterChain, here]
  · apply avoids.mono
    intro kind here
    rcases List.mem_append.1 here with suffix | operator
    · exact List.mem_append_left _ suffix
    · exact List.mem_append_right _ (List.mem_append_right _ operator)

theorem operation_stops {s : State} {count : Nat}
    (avoids : s.Avoids (afterChain (tier :: tighter))) :
    operation operand tier tighter count s = .ok none s :=
  bind_ok (accept?_avoids (afterChain_cons avoids).1)

theorem operation_accepts (count : Nat) (operator : Terminal tier.operators)
    (accepts : Accepts (chain operand (tighter.map Tier.layer)) w P right) :
    Accepts (operation operand tier tighter count) (operator.occurrence :: w) P
      (some (operator.occurrence, right)) :=
  .token operator (accepts.map (g := fun right => some (operator.occurrence, right)))

theorem chain_accepts {others : List (Occurrence × Expr)}
    (first : Accepts (chain operand (tighter.map Tier.layer)) w
      (State.Avoids (afterChain tighter)) e)
    (rest : Repeats (operation operand tier tighter) 0 w'
      (State.Avoids (afterChain (tier :: tighter))) others)
    (before : Before (State.Avoids (afterChain tighter)) w'
      (State.Avoids (afterChain (tier :: tighter)))) :
    Accepts (chain operand ((tier :: tighter).map Tier.layer)) (w ++ w')
      (State.Avoids (afterChain (tier :: tighter))) (tier.foldl e others) := by
  rw [chain_cons]
  exact first.bind ((rest.many fun _ => operation_stops).map) before

/-- Without operators a chain is an operand. -/
theorem chain_of_operand (accepts : Accepts operand w (State.Avoids afterOperand) e)
    (tiers : List Tier) :
    Accepts (chain operand (tiers.map Tier.layer)) w (State.Avoids (afterChain tiers)) e := by
  induction tiers with
  | nil => exact accepts.weaken fun _ avoids => avoids
  | cons tier tighter inductionHypothesis =>
    have noOperation : Repeats (operation operand tier tighter) 0 []
        (State.Avoids (afterChain (tier :: tighter))) [] := .nil
    have alone := chain_accepts inductionHypothesis noOperation
      (.nil fun _ avoids => (afterChain_cons avoids).2)
    rwa [List.append_nil] at alone

end Chains

/-! ## Suffixes -/

section Suffixes

variable {expression : Parser Expr} {e : Expr} {es : List Expr}

/-- One more item after a comma. -/
def anotherItem (tooMany : ParseFault) (item : Parser α) (count : Nat) : Parser (Option α) := do
  if ← accept .comma then
    if maxArguments ≤ count + 1 then noteHere tooMany
    return some (← item)
  else return none

theorem separated_eq (tooMany : ParseFault) (item : Parser α) :
    separated tooMany item = (do
      let first ← item
      let others ← many (anotherItem tooMany item)
      return first :: others) := rfl

theorem anotherItem_stops {tooMany : ParseFault} {item : Parser α} {count : Nat} {s : State}
    (avoids : s.Avoids [.comma]) : anotherItem tooMany item count s = .ok none s := by
  rw [anotherItem, bind_ok (accept_avoids avoids)]
  rfl

theorem anotherItem_accepts {tooMany : ParseFault} {item : Parser α} {a : α} {count : Nat}
    (bounded : count < maxOthers) (comma : Terminal [.comma]) (accepts : Accepts item w P a) :
    Accepts (anotherItem tooMany item count) (comma.occurrence :: w) P (some a) := by
  have few : ¬maxArguments ≤ count + 1 := by
    simp only [maxArguments, maxOthers] at bounded ⊢
    omega
  apply Accepts.accept_some comma
  simp only [if_true, few, if_false]
  exact accepts.map

theorem separated_accepts {tooMany : ParseFault} {item : Parser α} {a : α} {others : List α}
    {kinds : List TokenKind} (first : Accepts item w (State.Avoids kinds) a)
    (rest : Repeats (anotherItem tooMany item) 0 w' (State.Avoids (.comma :: kinds)) others)
    (before : Before (State.Avoids kinds) w' (State.Avoids (.comma :: kinds))) :
    Accepts (separated tooMany item) (w ++ w') (State.Avoids (.comma :: kinds)) (a :: others) := by
  rw [separated_eq]
  have stops : ∀ s : State, s.Avoids (.comma :: kinds) →
      anotherItem tooMany item others.length s = .ok none s :=
    fun s avoids => anotherItem_stops (avoids.mono (by simp))
  exact first.bind (rest.many stops).map before

theorem suffix_stops {s : State} (avoids : s.Avoids afterOperand) :
    suffix expression s = .ok none s := by
  rw [suffix, bind_ok (accept_avoids (avoids.mono (by decide)))]
  exact bind_ok (accept_avoids (avoids.mono (by decide)))

theorem access_accepts (dot : Terminal [.dot]) (name : Identifier) :
    Accepts (suffix expression) [dot.occurrence, name.occurrence] P
      (some (.get name.occurrence)) := by
  apply Accepts.accept_none
  · apply Accepts.accept_some dot
    exact .expect name .pure
  · exact dot.ends (by decide)

theorem emptyArguments_accepts (left : Terminal [.leftParen]) (right : Terminal [.rightParen]) :
    Accepts (suffix expression) [left.occurrence, right.occurrence] P
      (some (.call right.occurrence [])) := by
  have closed : Accepts (arguments expression) [right.occurrence] P (.call right.occurrence []) :=
    .next_true (.expect right .pure) (right.before fun _ meets => meets)
  exact .accept_some left closed.map

theorem arguments_accept (left : Terminal [.leftParen]) (right : Terminal [.rightParen])
    {kinds : List TokenKind} (accepts : Accepts (separated .tooManyArguments expression) w
      (State.Avoids (.comma :: afterExpression)) es)
    (starts : Starts kinds w) (notClosed : ∀ kind ∈ kinds, kind ∉ [TokenKind.rightParen]) :
    Accepts (suffix expression) (left.occurrence :: (w ++ [right.occurrence])) P
      (some (.call right.occurrence es)) := by
  have found : Accepts (arguments expression) (w ++ [right.occurrence]) P
      (.call right.occurrence es) :=
    .next_false (accepts.bind (.expect right .pure) (right.ends (by decide)))
      ((starts.append _).ends notClosed)
  exact .accept_some left found.map

theorem operand_accepts {suffixes : List Suffix}
    (first : Accepts (primary expression) w (fun _ => True) e)
    (rest : Repeats (fun _ => suffix expression) 0 w' (State.Avoids afterOperand) suffixes) :
    Accepts (operand expression) (w ++ w') (State.Avoids afterOperand)
      (suffixes.foldl Suffix.apply e) :=
  first.bind (rest.many fun _ => suffix_stops).map .trivial

theorem grouping_accepts (left : Terminal [.leftParen]) (right : Terminal [.rightParen])
    (inner : Accepts expression w (State.Avoids afterExpression) e) :
    Accepts (primary expression) (left.occurrence :: (w ++ [right.occurrence])) P (.grouping e) := by
  apply Accepts.token (left.widen (by decide))
  simp only [Terminal.widen, left.kind_eq]
  exact inner.bind (.skip right .pure) (right.ends (by decide))

theorem super_accepts (keyword : Terminal [.kwSuper]) (dot : Terminal [.dot])
    (method : Identifier) :
    Accepts (primary expression) [keyword.occurrence, dot.occurrence, method.occurrence] P
      (.super keyword.occurrence method.occurrence) := by
  apply Accepts.token (keyword.widen (by decide))
  simp only [Terminal.widen, keyword.kind_eq]
  exact .skip dot (.expect method .pure)

theorem constant_accepts (token : Terminal [.kwTrue, .kwFalse, .kwNil]) :
    Accepts (primary expression) [token.occurrence] P
      (.literal (Derivation.constantValue token.kind)) := by
  have kind := token.kind_mem
  apply Accepts.token (token.widen (by decide))
  simp only [Terminal.widen, Terminal.kind]
  simp only [List.mem_cons, List.not_mem_nil, or_false] at kind
  rcases kind with same | same | same <;> rw [same] <;> exact .pure

theorem literal_accepts (token : Terminal [.number, .string]) :
    Accepts (primary expression) [token.occurrence] P (.literal token.token.literal) := by
  have kind := token.kind_mem
  apply Accepts.token (token.widen (by decide))
  simp only [Terminal.widen]
  simp only [List.mem_cons, List.not_mem_nil, or_false] at kind
  rcases kind with same | same <;> rw [same] <;> exact .pure

theorem this_accepts (keyword : Terminal [.kwThis]) :
    Accepts (primary expression) [keyword.occurrence] P (.this keyword.occurrence) := by
  apply Accepts.token (keyword.widen (by decide))
  simp only [Terminal.widen, keyword.kind_eq]
  exact .pure

theorem named_accepts (name : Identifier) :
    Accepts (primary expression) [name.occurrence] P (.name name.occurrence) := by
  apply Accepts.token (name.widen (by decide))
  simp only [Terminal.widen, name.kind_eq]
  exact .pure

end Suffixes

/-! ## Prefix operators and assignments -/

section Expressions

variable {depth : Nat} {e value : Expr}

theorem unary_accepts (operator : Terminal [.bang, .minus])
    (accepts : Accepts (unary depth) w P e) :
    Accepts (unary (depth + 1)) (operator.occurrence :: w) P (.unary operator.occurrence e) :=
  .token operator accepts.map

theorem unary_of_operand (accepts : Accepts (operand (expression depth)) w P e)
    (starts : Starts operandStarts w) : Accepts (unary (depth + 1)) w P e :=
  .noToken accepts (starts.ends (by decide))

theorem plain_accepts (accepts : Accepts (chain (unary depth) layers) w
      (State.Avoids (afterChain Tier.all)) e) :
    Accepts (expression (depth + 1)) w (State.Avoids afterExpression) e := by
  have fewer : ∀ s : State, s.Avoids afterExpression → s.Avoids (afterChain Tier.all) :=
    fun _ avoids => avoids.mono (by decide)
  have noEquals : ∀ s : State, s.Avoids afterExpression → s.Avoids [.equal] :=
    fun _ avoids => avoids.mono (by decide)
  exact accepts.finish (.noToken .pure (.nil noEquals)) fewer

/-- An assignment, whatever target the parser has taken the left side for. -/
theorem assignment_accepts {assigned : Expr} (equals : Terminal [.equal])
    (target : Accepts (chain (unary depth) layers) w (State.Avoids (afterChain Tier.all)) e)
    (accepts : Accepts (expression depth) w' P value)
    (assigns : assignment equals.occurrence e value = pure assigned) :
    Accepts (expression (depth + 1)) (w ++ equals.occurrence :: w') P assigned := by
  have last : Accepts (assignment equals.occurrence e value) [] P assigned := by
    rw [assigns]
    exact .pure
  have right : Accepts (expression depth >>= assignment equals.occurrence e) w' P assigned :=
    accepts.finish last fun _ holds => holds
  exact target.bind (.token equals right) (equals.ends (by decide))

end Expressions

/-! ## Statements without statements in them -/

section Simple

variable {expression : Parser Expr} {e : Expr} {found : Option Expr}

theorem expressionStatement_accepts (semicolon : Terminal [.semicolon])
    (value : Accepts expression w (State.Avoids afterExpression) e) :
    Accepts (expressionStatement expression) (w ++ [semicolon.occurrence]) P (.expression e) :=
  value.bind (.skip semicolon .pure) (semicolon.ends (by decide))

theorem printStatement_accepts (semicolon : Terminal [.semicolon])
    (value : Accepts expression w (State.Avoids afterExpression) e) :
    Accepts (printStatement expression) (w ++ [semicolon.occurrence]) P (.print e) :=
  value.bind (.skip semicolon .pure) (semicolon.ends (by decide))

theorem returnStatement_accepts (keyword : Token) (semicolon : Terminal [.semicolon])
    (value : AcceptsOptional expression w Derivation.expressionStarts afterExpression found) :
    Accepts (returnStatement keyword expression) (w ++ [semicolon.occurrence]) P
      (.return keyword found) :=
  value.unless (by decide) (by decide) semicolon (.skip semicolon .pure)

/-- The value that a variable declaration begins with. -/
def AcceptsInitializer (p : Parser Expr) (w : List Occurrence) (found : Option Expr) : Prop :=
  (w = [] ∧ found = none) ∨
    ∃ e w' , ∃ equals : Terminal [.equal], found = some e ∧ w = equals.occurrence :: w' ∧
      Accepts p w' (State.Avoids afterExpression) e

theorem varDeclaration_accepts (name : Identifier) (semicolon : Terminal [.semicolon])
    (value : AcceptsInitializer expression w found) :
    Accepts (varDeclaration expression) (name.occurrence :: (w ++ [semicolon.occurrence])) P
      (.var name.token found) := by
  apply Accepts.expect name
  obtain ⟨rfl, rfl⟩ | ⟨e, w', equals, rfl, rfl, accepts⟩ := value
  · exact .accept_none (.skip semicolon .pure) (semicolon.ends (by decide))
  · exact .accept_some equals
      (accepts.map.bind (.skip semicolon .pure) (semicolon.ends (by decide)))

theorem noClause_accepts (semicolon : Terminal [.semicolon]) :
    Accepts (forInitializer expression) [semicolon.occurrence] P none :=
  .accept_some semicolon .pure

theorem varClause_accepts {declared : Stmt} (keyword : Terminal [.kwVar])
    (accepts : Accepts (varDeclaration expression) w P declared) :
    Accepts (forInitializer expression) (keyword.occurrence :: w) P (some declared) :=
  .accept_none (.accept_some keyword accepts.map) (keyword.ends (by decide))

theorem expressionClause_accepts {evaluated : Stmt}
    (accepts : Accepts (expressionStatement expression) w P evaluated)
    (starts : Starts Derivation.expressionStarts w) :
    Accepts (forInitializer expression) w P (some evaluated) :=
  .accept_none (.accept_none accepts.map (starts.ends (by decide))) (starts.ends (by decide))

end Simple

/-! ## Statements with statements in them -/

section Compound

variable {expression : Parser Expr} {statement : Parser Stmt} {e : Expr} {body : Stmt}
variable {w₁ w₂ w₃ : List Occurrence}

theorem whileStatement_accepts (left : Terminal [.leftParen]) (right : Terminal [.rightParen])
    (condition : Accepts expression w (State.Avoids afterExpression) e)
    (accepts : Accepts statement w' P body) :
    Accepts (whileStatement expression statement)
      (left.occurrence :: (w ++ right.occurrence :: w')) P (.while e body) :=
  .skip left (condition.bind (.skip right accepts.map) (right.ends (by decide)))

theorem forStatement_accepts {initializer : Option Stmt} {condition increment : Option Expr}
    (left : Terminal [.leftParen]) (semicolon : Terminal [.semicolon])
    (right : Terminal [.rightParen])
    (first : Accepts (forInitializer expression) w₁ (fun _ => True) initializer)
    (second : AcceptsOptional expression w₂ Derivation.expressionStarts afterExpression condition)
    (third : AcceptsOptional expression w₃ Derivation.expressionStarts afterExpression increment)
    (accepts : Accepts statement w P body) :
    Accepts (forStatement expression statement)
      (left.occurrence :: (w₁ ++ (w₂ ++ semicolon.occurrence :: (w₃ ++ right.occurrence :: w)))) P
      (forLoop initializer condition increment body) := by
  apply Accepts.skip left
  apply first.bind _ .trivial
  apply second.unless (by decide) (by decide) semicolon
  apply Accepts.skip semicolon
  apply third.unless (by decide) (by decide) right
  exact .skip right accepts.map

theorem ifThen_accepts {dangling : Bool} {thenBranch : Stmt} (left : Terminal [.leftParen])
    (right : Terminal [.rightParen])
    (condition : Accepts expression w (State.Avoids afterExpression) e)
    (accepts : Accepts statement w' (AfterStatement dangling) thenBranch) :
    Accepts (ifStatement expression statement)
      (left.occurrence :: (w ++ right.occurrence :: w')) (AfterStatement true)
      (.ite e thenBranch none) := by
  apply Accepts.skip left
  apply condition.bind _ (right.ends (by decide))
  apply Accepts.skip right
  apply accepts.finish _ fun _ after _ => after rfl
  exact .accept_none .pure (.nil fun _ after => after rfl)

theorem ifElse_accepts {thenBranch elseBranch : Stmt} (left : Terminal [.leftParen])
    (right : Terminal [.rightParen]) (otherwise : Terminal [.kwElse])
    (condition : Accepts expression w (State.Avoids afterExpression) e)
    (first : Accepts statement w₁ (AfterStatement false) thenBranch)
    (second : Accepts statement w₂ P elseBranch) :
    Accepts (ifStatement expression statement)
      (left.occurrence :: (w ++ right.occurrence :: (w₁ ++ otherwise.occurrence :: w₂))) P
      (.ite e thenBranch (some elseBranch)) := by
  apply Accepts.skip left
  apply condition.bind _ (right.ends (by decide))
  apply Accepts.skip right
  apply first.bind _ fun _ _ _ _ => Bool.noConfusion
  exact .accept_some otherwise (second.map.finish .pure fun _ holds => holds)

end Compound

/-! ## Blocks, functions and classes -/

/-- A step of a repetition that goes on up to a closing brace, or to the end. -/
def unlessClosed (p : Parser α) : Nat → Parser (Option α) := fun _ => do
  if (← next .rightBrace) || (← atEnd) then return none else return some (← p)

theorem unlessClosed_stops {p : Parser α} {count : Nat} {s : State} (meets : s.Meets [.rightBrace]) :
    unlessClosed p count s = .ok none s := by
  rw [unlessClosed, bind_ok (next_meets meets)]
  rfl

/-- While a token of one of the kinds is next, the step is the parser. -/
def StepsWith (step : Nat → Parser (Option α)) (p : Parser α) (kinds : List TokenKind) : Prop :=
  ∀ count s, s.Meets kinds → step count s = (some <$> p) s

theorem StepsWith.accepts {step : Nat → Parser (Option α)} {p : Parser α} {kinds : List TokenKind}
    {a : α} (steps : StepsWith step p kinds) (accepts : Accepts p w P a) (starts : Starts kinds w)
    (count : Nat) : Accepts (step count) w P (some a) :=
  accepts.map.of_eq fun s _ passes _ => steps count s (starts.meets passes)

theorem unlessClosed_steps {p : Parser α} {kinds : List TokenKind}
    (open' : ∀ kind ∈ kinds, kind ∉ [TokenKind.rightBrace]) : StepsWith (unlessClosed p) p kinds := by
  intro count s meets
  rw [unlessClosed, bind_ok (next_avoids (meets.avoids open')), bind_ok (atEnd_meets meets)]
  rfl

section Declarations

variable {declaration : Parser (Option Stmt)} {items : List (Option Stmt)}

theorem block_accepts (right : Terminal [.rightBrace])
    (found : Repeats (unlessClosed declaration) 0 w (State.Meets [.rightBrace]) items) :
    Accepts (block declaration) (w ++ [right.occurrence]) P (items.filterMap id) :=
  (found.many fun _ => unlessClosed_stops).bind (.skip right .pure)
    (right.before fun _ meets => meets)

theorem otherParameters_accept (others : List (Terminal [.comma] × Identifier)) (count : Nat)
    (bounded : count + others.length ≤ maxOthers) :
    Repeats (anotherItem .tooManyParameters (expect .identifier .noParameterName)) count
      (others.flatMap fun other => [other.1.occurrence, other.2.occurrence]) (State.Avoids [.comma])
      (others.map fun other => other.2.occurrence) := by
  induction others generalizing count with
  | nil => exact .nil
  | cons other rest inductionHypothesis =>
    rw [List.length_cons] at bounded
    have name : Accepts (expect .identifier .noParameterName) [other.2.occurrence] (fun _ => True)
        other.2.occurrence := .token other.2 .pure
    have more := inductionHypothesis (count + 1) (by omega)
    exact .cons (anotherItem_accepts (by omega) other.1 name) (Nat.succ_pos _) more .trivial

theorem parameters_accept (p : Parameters) :
    Accepts (separated .tooManyParameters (expect .identifier .noParameterName)) p.yield
      (State.Avoids [.comma]) (p.first.occurrence :: p.others.map fun other => other.2.occurrence) := by
  have first : Accepts (expect .identifier .noParameterName) [p.first.occurrence] (State.Avoids [])
      p.first.occurrence := .token p.first .pure
  have others := otherParameters_accept p.others 0 (by have := p.bounded; omega)
  exact separated_accepts first others fun _ _ _ _ _ _ => List.not_mem_nil

theorem function_accepts (form : FunctionForm) (name : Identifier)
    (leftParen : Terminal [.leftParen]) (parameters : Option Parameters)
    (rightParen : Terminal [.rightParen]) (leftBrace : Terminal [.leftBrace])
    {body : List Stmt} (accepts : Accepts (block declaration) w P body) :
    Accepts (function form declaration)
      (name.occurrence :: leftParen.occurrence :: (parameters.elim [] Parameters.yield ++
        rightParen.occurrence :: leftBrace.occurrence :: w)) P
      (.mk name.token (parameters.elim [] Parameters.tokens) body) := by
  apply Accepts.expect name
  apply Accepts.skip leftParen
  cases parameters with
  | none =>
    apply Accepts.next_true _ (rightParen.before fun _ meets => meets)
    exact .skip rightParen (.skip leftBrace accepts.map)
  | some p =>
    have starts : Starts [.identifier] p.yield := p.first.begins _
    have read := parameters_accept p
    -- Parameters begin with an identifier, so the parenthesis does not stand next.
    apply Accepts.next_false _ ((starts.append _).ends (by decide))
    apply read.bind _ (rightParen.ends (by decide))
    have tokens : (p.first.occurrence :: p.others.map fun other => other.2.occurrence).map
        Occurrence.token = p.tokens := by
      simp [Parameters.tokens, Terminal.token]
    simp only [tokens]
    exact .skip rightParen (.skip leftBrace accepts.map)

theorem superclass_accepts (parent : Option Heritage) :
    Accepts superclass (parent.elim [] Heritage.yield) (State.Avoids [.less])
      (parent.map (·.2.occurrence)) := by
  cases parent with
  | none => exact .accept_none .pure .refl
  | some h => exact .accept_some h.1 (.expect h.2 .pure)

theorem classDeclaration_accepts (name : Identifier) (parent : Option Heritage)
    (left : Terminal [.leftBrace]) (right : Terminal [.rightBrace]) {methods : List Function}
    (found : Repeats (unlessClosed (function .method declaration)) 0 w
      (State.Meets [.rightBrace]) methods) :
    Accepts (classDeclaration declaration)
      (name.occurrence :: (parent.elim [] Heritage.yield ++
        left.occurrence :: (w ++ [right.occurrence]))) P
      (.class name.occurrence (parent.map (·.2.occurrence)) methods) := by
  apply Accepts.expect name
  apply (superclass_accepts parent).bind _ (left.ends (by decide))
  apply Accepts.skip left
  apply (found.many fun _ => unlessClosed_stops).bind _ (right.before fun _ meets => meets)
  exact .skip right .pure

end Declarations

end Lox.Grammar
