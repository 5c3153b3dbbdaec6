import Lox.Proofs.Grammar.Productions

/-!
# What the grammar derives, the parser reads

By induction on a derivation: wherever the parser meets the derived word, it reads that word and yields
the derived tree, unless the word nests too deeply for it.
-/

namespace Lox.Grammar

variable {w w' : List Occurrence} {P P' : State → Prop}

/-! ## Statements and declarations -/

section Dispatch

variable {expression : Parser Expr} {depth : Nat} {s : Stmt} {kind : TokenKind}

/-- The rest of a statement that a token of the kind has selected. -/
def statementAfter (expression : Parser Expr) (depth : Nat) (keyword : Token) :
    TokenKind → Parser Stmt
  | .kwFor => forStatement expression (statement expression depth)
  | .kwIf => ifStatement expression (statement expression depth)
  | .kwPrint => printStatement expression
  | .kwReturn => returnStatement keyword expression
  | .kwWhile => whileStatement expression (statement expression depth)
  | _ => return .block (← block (declaration expression depth))

theorem statement_eq : statement expression (depth + 1) = (do
    match ← accept? statementStarts with
    | none => expressionStatement expression
    | some first => statementAfter expression depth first.token first.token.kind) := by
  rw [statement]
  rfl

/-- The rest of a declaration that a token of the kind has selected. -/
def declarationAfter (expression : Parser Expr) (depth : Nat) : TokenKind → Parser Stmt
  | .kwClass => classDeclaration (declaration expression depth)
  | .kwFun => return .function (← function .function (declaration expression depth))
  | _ => varDeclaration expression

theorem declaration_eq : declaration expression (depth + 1) = recovering (do
    match ← accept? declarationStarts with
    | none => statement expression depth
    | some first => declarationAfter expression depth first.token.kind) := by
  rw [declaration]
  rfl

theorem statement_of_expression (accepts : Accepts (expressionStatement expression) w P s)
    (starts : Starts Derivation.expressionStarts w) (depth : Nat) :
    Accepts (statement expression depth) w P s := by
  cases depth with
  | zero => exact .tooDeep
  | succ depth =>
    rw [statement_eq]
    exact .noToken accepts (starts.ends (by decide))

theorem statement_keyword (keyword : Terminal [kind]) (selects : ∀ k ∈ [kind], k ∈ statementStarts)
    (accepts : ∀ depth, Accepts (statementAfter expression depth keyword.token kind) w P s)
    (depth : Nat) : Accepts (statement expression depth) (keyword.occurrence :: w) P s := by
  cases depth with
  | zero => exact .tooDeep
  | succ depth =>
    rw [statement_eq]
    apply Accepts.token (keyword.widen selects)
    simp only [Terminal.widen, keyword.kind_eq]
    exact accepts depth

theorem recovering_accepts {α : Type} {p : Parser α} {a : α} (accepts : Accepts p w P a) :
    Accepts (recovering p) w P (some a) := by
  obtain ⟨fits, runs⟩ := accepts
  refine ⟨fits, fun s s' counted passes after => ?_⟩
  have run := runs s s' counted passes after
  refine ⟨fun fit => by rw [recovering, run.ok fit], fun unfit => ?_⟩
  obtain ⟨stop, halts⟩ := run.halts unfit
  exact ⟨stop, by rw [recovering, halts]⟩

theorem declaration_of_statement (accepts : ∀ depth, Accepts (statement expression depth) w P s)
    (starts : Starts (statementStarts ++ Derivation.expressionStarts) w) (depth : Nat) :
    Accepts (declaration expression depth) w P (some s) := by
  cases depth with
  | zero => exact .tooDeep
  | succ depth =>
    rw [declaration_eq]
    exact recovering_accepts (.noToken (accepts depth) (starts.ends (by decide)))

theorem declaration_keyword (keyword : Terminal [kind])
    (selects : ∀ k ∈ [kind], k ∈ declarationStarts)
    (accepts : ∀ depth, Accepts (declarationAfter expression depth kind) w P s) (depth : Nat) :
    Accepts (declaration expression depth) (keyword.occurrence :: w) P (some s) := by
  cases depth with
  | zero => exact .tooDeep
  | succ depth =>
    rw [declaration_eq]
    apply recovering_accepts
    apply Accepts.token (keyword.widen selects)
    simp only [Terminal.widen, keyword.kind_eq]
    exact accepts depth

end Dispatch

/-! ## Derivations -/

/-- At any depth the parser of the symbol reads the derived word and yields the derived tree. -/
def Accepted : {s : Symbol} → Derivation s → Prop
  | .expression, d => ∀ depth,
    Accepts (expression depth) d.yield (State.Avoids afterExpression) d.tree
  | .chain tiers, d => tiers.Nodup → ∀ depth,
    Accepts (chain (unary depth) (tiers.map Tier.layer)) d.yield (State.Avoids (afterChain tiers))
      d.tree
  | .operations tier tighter, d => (tier :: tighter).Nodup →
    ∃ items, (∀ left, tier.foldl left items = d.tree left) ∧ ∀ depth count,
      Repeats (operation (unary depth) tier tighter) count d.yield
        (State.Avoids (afterChain tighter)) items
  | .unary, d => ∀ depth, Accepts (unary depth) d.yield (State.Avoids afterOperand) d.tree
  | .suffix, d => ∃ item : Suffix, (∀ e, item.apply e = d.tree e) ∧ ∀ depth,
    Accepts (suffix (expression depth)) d.yield (fun _ => True) (some item)
  | .suffixes, d => ∃ items, (∀ e, items.foldl Suffix.apply e = d.tree e) ∧ ∀ depth count,
    Repeats (fun _ => suffix (expression depth)) count d.yield (fun _ => True) items
  | .arguments count, d => ∀ depth found, found + count ≤ maxOthers →
    Repeats (anotherItem .tooManyArguments (expression depth)) found d.yield
      (State.Avoids afterExpression) d.tree
  | .primary, d => ∀ depth, Accepts (primary (expression depth)) d.yield (fun _ => True) d.tree
  | .optional, d => ∀ depth,
    AcceptsOptional (expression depth) d.yield Derivation.expressionStarts afterExpression d.tree
  | .initializer, d => ∀ depth, AcceptsInitializer (expression depth) d.yield d.tree
  | .expressionStatement, d => ∀ depth,
    Accepts (expressionStatement (expression depth)) d.yield (fun _ => True) d.tree
  | .varDeclaration, d => ∀ depth,
    Accepts (varDeclaration (expression depth)) d.yield (fun _ => True) d.tree
  | .forInitializer, d => ∀ depth,
    Accepts (forInitializer (expression depth)) d.yield (fun _ => True) d.tree
  | .statement dangling, d => ∀ height depth,
    Accepts (statement (expression height) depth) d.yield (AfterStatement dangling) d.tree
  | .function, d => ∀ form height depth,
    Accepts (function form (declaration (expression height) depth)) d.yield (fun _ => True) d.tree
  | .methods, d => ∀ height depth count,
    Repeats (unlessClosed (function .method (declaration (expression height) depth))) count d.yield
      (fun _ => True) d.tree
  | .declaration, d => ∀ height depth,
    Accepts (declaration (expression height) depth) d.yield (State.Avoids [.kwElse]) (some d.tree)
  | .declarations, d => ∀ height depth step,
    StepsWith step (declaration (expression height) depth) Derivation.firsts → ∀ count,
      Repeats step count d.yield (State.Avoids [.kwElse]) (d.tree.map some)

theorem operations_before {tier : Tier} {tighter : List Tier}
    (d : Derivation (.operations tier tighter)) (fresh : tier ∉ tighter) :
    Before (State.Avoids (afterChain tighter)) d.yield (State.Avoids (afterChain tighter)) := by
  cases d with
  | noOperation => exact .refl
  | operation operator right others => exact operator.ends (Tier.operators_fresh fresh)

theorem arguments_before {count : Nat} (d : Derivation (.arguments count)) :
    Before (State.Avoids afterExpression) d.yield (State.Avoids afterExpression) := by
  cases d with
  | noArgument => exact .refl
  | argument comma value more => exact comma.ends (by decide)

theorem declarations_before (d : Derivation .declarations) :
    Before (State.Avoids [.kwElse]) d.yield (State.Avoids [.kwElse]) := by
  cases d with
  | noDeclaration => exact .refl
  | declarations first others => exact ((first.starts _ rfl).append _).ends (by decide)

section Expressions

variable {e : Expr} {suffixes : List Suffix}
  (first : ∀ depth, Accepts (primary (expression depth)) w (fun _ => True) e)
  (starts : Starts operandStarts w)
  (rest : ∀ depth count,
    Repeats (fun _ => suffix (expression depth)) count w' (fun _ => True) suffixes)
include first starts rest

theorem call_accepts (depth : Nat) :
    Accepts (unary depth) (w ++ w') (State.Avoids afterOperand) (suffixes.foldl Suffix.apply e) := by
  cases depth with
  | zero => exact .tooDeep
  | succ depth =>
    have read := operand_accepts (first depth) ((rest depth 0).weaken fun _ _ => trivial)
    exact unary_of_operand read (starts.append w')

theorem target_accepts (depth : Nat) :
    Accepts (chain (unary depth) layers) (w ++ w') (State.Avoids (afterChain Tier.all))
      (suffixes.foldl Suffix.apply e) := by
  rw [layers_eq]
  exact chain_of_operand (call_accepts first starts rest depth) Tier.all

end Expressions

theorem body_accepts {body : Derivation .declarations} (accepted : Accepted body)
    (right : Terminal [.rightBrace]) (height depth : Nat) :
    Accepts (block (declaration (expression height) depth)) (body.yield ++ [right.occurrence]) P
      body.tree := by
  have found := accepted height depth (unlessClosed _) (unlessClosed_steps (by decide)) 0
  have closes : ∀ s : State, s.Meets [.rightBrace] → s.Avoids [.kwElse] :=
    fun _ meets => meets.avoids (by decide)
  have read := block_accepts right (found.weaken closes) (P := P)
  have all : (body.tree.map some).filterMap id = body.tree := by simp
  rwa [all] at read

theorem assignProperty_accepted {object : Derivation .primary} {suffixes : Derivation .suffixes}
    {dot : Terminal [.dot]} {property : Terminal [.identifier]} {equals : Terminal [.equal]}
    {value : Derivation .expression} (inObject : Accepted object) (inSuffixes : Accepted suffixes)
    (inValue : Accepted value) :
    Accepted (.assignProperty object suffixes dot property equals value) := by
  intro depth
  cases depth with
  | zero => exact .tooDeep
  | succ depth =>
    obtain ⟨items, tree, repeats⟩ := inSuffixes
    -- The parser reads the property to assign as one more suffix, and takes it back at the equals sign.
    have more : ∀ depth count, Repeats (fun _ => suffix (Grammar.expression depth)) count
        (suffixes.yield ++ [dot.occurrence, property.occurrence]) (fun _ => True)
        (items ++ [.get property.occurrence]) :=
      fun depth count => (repeats depth count).append
        (.single (access_accepts dot property) (Nat.succ_pos _)) .trivial
    have read := target_accepts inObject (object.starts _ rfl) more depth
    simp only [List.foldl_append, List.foldl_cons, List.foldl_nil, tree, Suffix.apply] at read
    have assigned : Accepts (Grammar.expression (depth + 1)) _ (State.Avoids afterExpression)
        (Derivation.assignProperty object suffixes dot property equals value).tree :=
      assignment_accepts equals read (inValue depth) rfl
    simpa only [Derivation.yield, List.append_assoc, List.cons_append, List.nil_append] using assigned

theorem chain_accepted {tier : Tier} {tighter : List Tier} {first : Derivation (.chain tighter)}
    {others : Derivation (.operations tier tighter)} (inFirst : Accepted first)
    (inOthers : Accepted others) : Accepted (.chain first others) := by
  intro distinct depth
  obtain ⟨fresh, distinctTighter⟩ := List.nodup_cons.1 distinct
  obtain ⟨items, tree, repeats⟩ := inOthers distinct
  have weaken : ∀ s : State, s.Avoids (afterChain (tier :: tighter)) →
      s.Avoids (afterChain tighter) := fun _ avoids => (afterChain_cons avoids).2
  have read := chain_accepts (inFirst distinctTighter depth) ((repeats depth 0).weaken weaken)
    ((operations_before others fresh).weaken weaken)
  rwa [tree] at read

theorem operation_accepted {tier : Tier} {tighter : List Tier} {operator : Terminal tier.operators}
    {right : Derivation (.chain tighter)} {others : Derivation (.operations tier tighter)}
    (inRight : Accepted right) (inOthers : Accepted others) :
    Accepted (.operation operator right others) := by
  intro distinct
  obtain ⟨fresh, distinctTighter⟩ := List.nodup_cons.1 distinct
  obtain ⟨items, tree, repeats⟩ := inOthers distinct
  refine ⟨(operator.occurrence, right.tree) :: items, fun left => tree _, fun depth count => ?_⟩
  exact .cons (operation_accepts count operator (inRight distinctTighter depth)) (Nat.succ_pos _)
    (repeats depth (count + 1)) (operations_before others fresh)

theorem arguments_accepted {count : Nat} {left : Terminal [.leftParen]}
    {first : Derivation .expression} {more : Derivation (.arguments count)}
    {right : Terminal [.rightParen]} (bounded : count ≤ maxOthers) (inFirst : Accepted first)
    (inMore : Accepted more) : Accepted (.arguments left first more right bounded) := by
  refine ⟨.call right.occurrence (first.tree :: more.tree), fun _ => rfl, fun depth => ?_⟩
  have fewer : ∀ s : State, s.Avoids (.comma :: afterExpression) → s.Avoids afterExpression :=
    fun _ avoids => avoids.mono fun _ => List.mem_cons_of_mem _
  have read := separated_accepts (inFirst depth) ((inMore depth 0 (by omega)).weaken fewer)
    ((arguments_before more).weaken fewer)
  have found := arguments_accept left right read ((first.starts _ rfl).append _) (by decide)
    (P := fun _ => True)
  simpa only [Derivation.yield, List.append_assoc] using found

theorem Derivation.accepted {s : Symbol} (d : Derivation s) : Accepted d := by
  induction d with
  | assignName target equals value inValue =>
    intro depth
    -- With no depth left the parser says so, whatever the word.
    cases depth with
    | zero => exact .tooDeep
    | succ depth =>
      have read := target_accepts (fun _ => named_accepts target) (target.starts (by decide) [])
        (fun _ _ => .nil) depth
      exact assignment_accepts equals read (inValue depth) rfl
  | assignProperty _ _ _ _ _ _ inObject inSuffixes inValue =>
    exact assignProperty_accepted inObject inSuffixes inValue
  | plain inner inInner =>
    intro depth
    cases depth with
    | zero => exact .tooDeep
    | succ depth => exact plain_accepts (inInner (by decide) depth)
  | single inner inInner => exact fun _ depth => inInner depth
  | chain _ _ inFirst inOthers => exact chain_accepted inFirst inOthers
  | noOperation => exact fun _ => ⟨[], fun _ => rfl, fun _ _ => .nil⟩
  | operation _ _ _ inRight inOthers => exact operation_accepted inRight inOthers
  | unary operator operand inOperand =>
    intro depth
    cases depth with
    | zero => exact .tooDeep
    | succ depth => exact unary_accepts operator (inOperand depth)
  | call first suffixes inFirst inSuffixes =>
    intro depth
    obtain ⟨items, tree, repeats⟩ := inSuffixes
    have read := call_accepts inFirst (first.starts _ rfl) repeats depth
    rwa [tree] at read
  | emptyArguments left right =>
    exact ⟨.call right.occurrence [], fun _ => rfl, fun _ => emptyArguments_accepts left right⟩
  | arguments _ _ _ _ bounded inFirst inMore => exact arguments_accepted bounded inFirst inMore
  | access dot name => exact ⟨.get name.occurrence, fun _ => rfl, fun _ => access_accepts dot name⟩
  | noSuffix => exact ⟨[], fun _ => rfl, fun _ _ => .nil⟩
  | someSuffix first others inFirst inOthers =>
    obtain ⟨item, here, accepts⟩ := inFirst
    obtain ⟨items, there, repeats⟩ := inOthers
    refine ⟨item :: items, fun e => ?_, fun depth count => ?_⟩
    · rw [List.foldl_cons, here]
      exact there _
    · exact .cons (accepts depth) (first.starts _ rfl).length_pos (repeats depth (count + 1)) .trivial
  | noArgument => exact fun _ _ _ => .nil
  | argument comma value more inValue inMore =>
    intro depth found bounded
    exact .cons (anotherItem_accepts (by omega) comma (inValue depth)) (Nat.succ_pos _)
      (inMore depth (found + 1) (by omega)) (arguments_before more)
  | constant token => exact fun _ => constant_accepts token
  | literal token => exact fun _ => literal_accepts token
  | named token => exact fun _ => named_accepts token
  | this keyword => exact fun _ => this_accepts keyword
  | super keyword dot method => exact fun _ => super_accepts keyword dot method
  | grouping left inner right inInner => exact fun depth => grouping_accepts left right (inInner depth)
  | noExpression => exact fun _ => .inl ⟨rfl, rfl⟩
  | someExpression value inValue =>
    exact fun depth => .inr ⟨_, rfl, value.starts _ rfl, inValue depth⟩
  | noInitializer => exact fun _ => .inl ⟨rfl, rfl⟩
  | someInitializer equals value inValue =>
    exact fun depth => .inr ⟨_, _, equals, rfl, rfl, inValue depth⟩
  | expressionStatement value semicolon inValue =>
    exact fun depth => expressionStatement_accepts semicolon (inValue depth)
  | varDeclaration name initializer semicolon inInitializer =>
    exact fun depth => varDeclaration_accepts name semicolon (inInitializer depth)
  | noClause semicolon => exact fun _ => noClause_accepts semicolon
  | varClause keyword declaration inDeclaration =>
    exact fun depth => varClause_accepts keyword (inDeclaration depth)
  | expressionClause statement inStatement =>
    exact fun depth => expressionClause_accepts (inStatement depth) (statement.starts _ rfl)
  | expressionOnly statement inStatement =>
    intro height
    exact statement_of_expression ((inStatement height).weaken fun _ _ => trivial)
      (statement.starts _ rfl)
  | print keyword value semicolon inValue =>
    intro height
    exact statement_keyword keyword (by decide)
      fun _ => printStatement_accepts semicolon (inValue height)
  | «return» keyword value semicolon inValue =>
    intro height
    exact statement_keyword keyword (by decide)
      fun _ => returnStatement_accepts keyword.token semicolon (inValue height)
  | block left body right inBody =>
    intro height
    exact statement_keyword left (by decide) fun depth => (body_accepts inBody right height depth).map
  | «while» keyword left condition right body inCondition inBody =>
    intro height
    exact statement_keyword keyword (by decide)
      fun depth => whileStatement_accepts left right (inCondition height) (inBody height depth)
  | «for» keyword left initializer condition semicolon increment right body inInitializer
      inCondition inIncrement inBody =>
    intro height
    exact statement_keyword keyword (by decide)
      fun depth => forStatement_accepts left semicolon right (inInitializer height)
        (inCondition height) (inIncrement height) (inBody height depth)
  | ifThen keyword left condition right thenBranch inCondition inThen =>
    intro height
    exact statement_keyword keyword (by decide)
      fun depth => ifThen_accepts left right (inCondition height) (inThen height depth)
  | ifElse keyword left condition right thenBranch otherwise elseBranch inCondition inThen inElse =>
    intro height
    exact statement_keyword keyword (by decide)
      fun depth => ifElse_accepts left right otherwise (inCondition height) (inThen height depth)
        (inElse height depth)
  | function name leftParen parameters rightParen leftBrace body rightBrace inBody =>
    intro form height depth
    exact function_accepts form name leftParen parameters rightParen leftBrace
      (body_accepts inBody rightBrace height depth)
  | noMethod => exact fun _ _ _ => .nil
  | someMethod first others inFirst inOthers =>
    intro height depth count
    have starts := first.starts _ rfl
    exact .cons ((unlessClosed_steps (by decide)).accepts (inFirst .method height depth) starts count)
      starts.length_pos (inOthers height depth (count + 1)) .trivial
  | «class» keyword name superclass left methods right inMethods =>
    intro height
    exact declaration_keyword keyword (by decide)
      fun depth => classDeclaration_accepts name superclass left right
        ((inMethods height depth 0).weaken fun _ _ => trivial)
  | «fun» keyword declaration inDeclaration =>
    intro height
    exact declaration_keyword keyword (by decide)
      fun depth => ((inDeclaration .function height depth).weaken fun _ _ => trivial).map
  | var keyword declaration inDeclaration =>
    intro height
    exact declaration_keyword keyword (by decide)
      fun _ => (inDeclaration height).weaken fun _ _ => trivial
  | statementOnly statement inStatement =>
    intro height
    exact declaration_of_statement
      (fun depth => (inStatement height depth).weaken fun _ avoids _ => avoids)
      (statement.starts _ rfl)
  | noDeclaration => exact fun _ _ _ _ _ => .nil
  | declarations first others inFirst inOthers =>
    intro height depth step steps count
    have starts := first.starts _ rfl
    exact .cons (steps.accepts (inFirst height depth) starts count) starts.length_pos
      (inOthers height depth step steps (count + 1)) (declarations_before others)

/-! ## Programs -/

/-- A step of a repetition that goes on up to the end. -/
def unlessEnded {α : Type} (p : Parser α) : Nat → Parser (Option α) := fun _ => do
  if ← atEnd then return none else return some (← p)

theorem unlessEnded_stops {α : Type} {p : Parser α} {count : Nat} {s : State} (ended : s.Ended) :
    unlessEnded p count s = .ok none s := by
  have isEnd : atEnd s = .ok true s := by
    rw [State.Ended] at ended
    simp [atEnd, ended]
  rw [unlessEnded, bind_ok isEnd]
  rfl

theorem unlessEnded_steps {α : Type} {p : Parser α} {kinds : List TokenKind} :
    StepsWith (unlessEnded p) p kinds := by
  intro count s meets
  rw [unlessEnded, bind_ok (atEnd_meets meets)]
  rfl

theorem program_accepts (d : Derivation .declarations) (depth : Nat) :
    Accepts (program depth) d.yield State.Ended d.tree := by
  have found := d.accepted depth depth (unlessEnded _) unlessEnded_steps 0
  have ends : ∀ s : State, s.Ended → s.Avoids [.kwElse] := by
    intro s ended t here
    rw [State.Ended] at ended
    simp [ended] at here
  have read := (found.weaken ends).many fun _ => unlessEnded_stops
  have all : (d.tree.map some).filterMap id = d.tree := by simp
  rw [← all]
  exact read.map

end Lox.Grammar
