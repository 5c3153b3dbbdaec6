import Lox.Proofs.Grammar.Upcoming

/-!
# Derivations

The grammar of programs, as the type of its derivations. A derivation has a word, the occurrences that it
derives, and a tree. What the grammar writes with a star or a question mark is a symbol of its own, with
a production for each way to go on. An `else` belongs to the nearest `if`: the branch before an `else` is
a statement to which no further `else` could belong.
-/

namespace Lox.Grammar

/-- A token of one of the kinds, where it occurs. -/
structure Terminal (kinds : List TokenKind) where
  occurrence : Occurrence
  kind_mem : occurrence.token.kind ∈ kinds

namespace Terminal

variable {kinds : List TokenKind}

def token (t : Terminal kinds) : Token := t.occurrence.token

def kind (t : Terminal kinds) : TokenKind := t.occurrence.token.kind

theorem kind_eq {kind : TokenKind} (t : Terminal [kind]) : t.occurrence.token.kind = kind :=
  List.mem_singleton.1 t.kind_mem

end Terminal

abbrev Identifier := Terminal [.identifier]

/-! ## Binary operators -/

/-- The tiers of binary operators. -/
inductive Tier where
  | logicOr | logicAnd | equality | comparison | term | factor
deriving DecidableEq

namespace Tier

def operators : Tier → List TokenKind
  | logicOr => [.kwOr]
  | logicAnd => [.kwAnd]
  | equality => [.bangEqual, .equalEqual]
  | comparison => [.greater, .greaterEqual, .less, .lessEqual]
  | term => [.minus, .plus]
  | factor => [.slash, .star]

/-- The tree of an operation. -/
def build : Tier → Expr → Occurrence → Expr → Expr
  | logicOr | logicAnd => .logical
  | _ => .binary

/-- All tiers, from the one that binds least. -/
def all : List Tier := [logicOr, logicAnd, equality, comparison, term, factor]

end Tier

/-! ## Symbols -/

/-- The symbols of the grammar that derive words. -/
inductive Symbol where
  | declarations
  | declaration
  /-- A function from its name on. -/
  | function
  | methods
  /-- A variable declaration from its name on. -/
  | varDeclaration
  | initializer
  | expressionStatement
  | forInitializer
  /-- An expression or nothing. -/
  | optional
  /-- A statement; if it is dangling, then an `else` right after it would belong to it. -/
  | statement (dangling : Bool)
  | expression
  /-- An operand of no tier, or chains of the tighter tiers with operators of the first between. -/
  | chain (tiers : List Tier)
  | operations (tier : Tier) (tighter : List Tier)
  | unary
  | suffix
  | suffixes
  /-- So many arguments, each after a comma. -/
  | arguments (count : Nat)
  | primary

/-- What the derivations of a symbol stand for. -/
abbrev Symbol.Tree : Symbol → Type
  | declarations => List Stmt
  | methods => List Function
  | function => Function
  | declaration | varDeclaration | expressionStatement | statement _ => Stmt
  | initializer | optional => Option Expr
  | forInitializer => Option Stmt
  | expression | chain _ | unary | primary => Expr
  | arguments _ => List Expr
  -- operations and suffixes go around the expression that stands before them
  | operations _ _ | suffix | suffixes => Expr → Expr

/-- The greatest number of parameters or arguments, less the first. -/
def maxOthers : Nat := 254

/-- Parameters with commas between them. -/
structure Parameters where
  first : Identifier
  others : List (Terminal [.comma] × Identifier)
  bounded : others.length ≤ maxOthers

namespace Parameters

def yield (p : Parameters) : List Occurrence :=
  p.first.occurrence :: p.others.flatMap fun other => [other.1.occurrence, other.2.occurrence]

def tokens (p : Parameters) : List Token :=
  p.first.token :: p.others.map fun other => other.2.token

end Parameters

/-- A superclass with the `<` before it. -/
abbrev Heritage := Terminal [.less] × Identifier

def Heritage.yield (h : Heritage) : List Occurrence := [h.1.occurrence, h.2.occurrence]

/-! ## Productions -/

/-- The derivations of a symbol, one constructor for each production. -/
inductive Derivation : Symbol → Type where
  | assignName (target : Identifier) (equals : Terminal [.equal])
      (value : Derivation .expression) : Derivation .expression
  | assignProperty (object : Derivation .primary) (suffixes : Derivation .suffixes)
      (dot : Terminal [.dot]) (property : Identifier) (equals : Terminal [.equal])
      (value : Derivation .expression) : Derivation .expression
  | plain (inner : Derivation (.chain Tier.all)) : Derivation .expression
  | single (inner : Derivation .unary) : Derivation (.chain [])
  | chain {tier : Tier} {tighter : List Tier} (first : Derivation (.chain tighter))
      (others : Derivation (.operations tier tighter)) : Derivation (.chain (tier :: tighter))
  | noOperation {tier : Tier} {tighter : List Tier} : Derivation (.operations tier tighter)
  | operation {tier : Tier} {tighter : List Tier} (operator : Terminal tier.operators)
      (right : Derivation (.chain tighter)) (others : Derivation (.operations tier tighter)) :
      Derivation (.operations tier tighter)
  | unary (operator : Terminal [.bang, .minus]) (operand : Derivation .unary) : Derivation .unary
  | call (first : Derivation .primary) (suffixes : Derivation .suffixes) : Derivation .unary
  | emptyArguments (left : Terminal [.leftParen]) (right : Terminal [.rightParen]) :
      Derivation .suffix
  | arguments {count : Nat} (left : Terminal [.leftParen]) (first : Derivation .expression)
      (more : Derivation (.arguments count)) (right : Terminal [.rightParen])
      (bounded : count ≤ maxOthers) : Derivation .suffix
  | access (dot : Terminal [.dot]) (name : Identifier) : Derivation .suffix
  | noSuffix : Derivation .suffixes
  | someSuffix (first : Derivation .suffix) (others : Derivation .suffixes) : Derivation .suffixes
  | noArgument : Derivation (.arguments 0)
  | argument {count : Nat} (comma : Terminal [.comma]) (value : Derivation .expression)
      (more : Derivation (.arguments count)) : Derivation (.arguments (count + 1))
  | constant (token : Terminal [.kwTrue, .kwFalse, .kwNil]) : Derivation .primary
  | literal (token : Terminal [.number, .string]) : Derivation .primary
  | named (token : Identifier) : Derivation .primary
  | this (keyword : Terminal [.kwThis]) : Derivation .primary
  | super (keyword : Terminal [.kwSuper]) (dot : Terminal [.dot]) (method : Identifier) :
      Derivation .primary
  | grouping (left : Terminal [.leftParen]) (inner : Derivation .expression)
      (right : Terminal [.rightParen]) : Derivation .primary
  | noExpression : Derivation .optional
  | someExpression (value : Derivation .expression) : Derivation .optional
  | noInitializer : Derivation .initializer
  | someInitializer (equals : Terminal [.equal]) (value : Derivation .expression) :
      Derivation .initializer
  | expressionStatement (value : Derivation .expression) (semicolon : Terminal [.semicolon]) :
      Derivation .expressionStatement
  | varDeclaration (name : Identifier) (initializer : Derivation .initializer)
      (semicolon : Terminal [.semicolon]) : Derivation .varDeclaration
  | noClause (semicolon : Terminal [.semicolon]) : Derivation .forInitializer
  | varClause (keyword : Terminal [.kwVar]) (declaration : Derivation .varDeclaration) :
      Derivation .forInitializer
  | expressionClause (statement : Derivation .expressionStatement) : Derivation .forInitializer
  | expressionOnly (statement : Derivation .expressionStatement) : Derivation (.statement false)
  | print (keyword : Terminal [.kwPrint]) (value : Derivation .expression)
      (semicolon : Terminal [.semicolon]) : Derivation (.statement false)
  | return (keyword : Terminal [.kwReturn]) (value : Derivation .optional)
      (semicolon : Terminal [.semicolon]) : Derivation (.statement false)
  | block (left : Terminal [.leftBrace]) (body : Derivation .declarations)
      (right : Terminal [.rightBrace]) : Derivation (.statement false)
  | while {dangling : Bool} (keyword : Terminal [.kwWhile]) (left : Terminal [.leftParen])
      (condition : Derivation .expression) (right : Terminal [.rightParen])
      (body : Derivation (.statement dangling)) : Derivation (.statement dangling)
  | for {dangling : Bool} (keyword : Terminal [.kwFor]) (left : Terminal [.leftParen])
      (initializer : Derivation .forInitializer) (condition : Derivation .optional)
      (semicolon : Terminal [.semicolon]) (increment : Derivation .optional)
      (right : Terminal [.rightParen]) (body : Derivation (.statement dangling)) :
      Derivation (.statement dangling)
  | ifThen {dangling : Bool} (keyword : Terminal [.kwIf]) (left : Terminal [.leftParen])
      (condition : Derivation .expression) (right : Terminal [.rightParen])
      (thenBranch : Derivation (.statement dangling)) : Derivation (.statement true)
  | ifElse {dangling : Bool} (keyword : Terminal [.kwIf]) (left : Terminal [.leftParen])
      (condition : Derivation .expression) (right : Terminal [.rightParen])
      (thenBranch : Derivation (.statement false)) (otherwise : Terminal [.kwElse])
      (elseBranch : Derivation (.statement dangling)) : Derivation (.statement dangling)
  | function (name : Identifier) (leftParen : Terminal [.leftParen])
      (parameters : Option Parameters) (rightParen : Terminal [.rightParen])
      (leftBrace : Terminal [.leftBrace]) (body : Derivation .declarations)
      (rightBrace : Terminal [.rightBrace]) : Derivation .function
  | noMethod : Derivation .methods
  | someMethod (first : Derivation .function) (others : Derivation .methods) : Derivation .methods
  | class (keyword : Terminal [.kwClass]) (name : Identifier) (superclass : Option Heritage)
      (left : Terminal [.leftBrace]) (methods : Derivation .methods)
      (right : Terminal [.rightBrace]) : Derivation .declaration
  | fun (keyword : Terminal [.kwFun]) (declaration : Derivation .function) :
      Derivation .declaration
  | var (keyword : Terminal [.kwVar]) (declaration : Derivation .varDeclaration) :
      Derivation .declaration
  | statementOnly {dangling : Bool} (statement : Derivation (.statement dangling)) :
      Derivation .declaration
  | noDeclaration : Derivation .declarations
  | declarations (first : Derivation .declaration) (others : Derivation .declarations) :
      Derivation .declarations

namespace Derivation

/-! ## Words -/

/-- The occurrences that are derived, from left to right. -/
def yield : {s : Symbol} → Derivation s → List Occurrence
  | _, assignName target equals value =>
    target.occurrence :: equals.occurrence :: value.yield
  | _, assignProperty object suffixes dot property equals value =>
    object.yield ++ (suffixes.yield ++
      dot.occurrence :: property.occurrence :: equals.occurrence :: value.yield)
  | _, plain inner => inner.yield
  | _, single inner => inner.yield
  | _, chain first others => first.yield ++ others.yield
  | _, noOperation => []
  | _, operation operator right others => operator.occurrence :: (right.yield ++ others.yield)
  | _, unary operator operand => operator.occurrence :: operand.yield
  | _, call first suffixes => first.yield ++ suffixes.yield
  | _, emptyArguments left right => [left.occurrence, right.occurrence]
  | _, arguments left first more right _ =>
    left.occurrence :: (first.yield ++ (more.yield ++ [right.occurrence]))
  | _, access dot name => [dot.occurrence, name.occurrence]
  | _, noSuffix => []
  | _, someSuffix first others => first.yield ++ others.yield
  | _, noArgument => []
  | _, argument comma value more => comma.occurrence :: (value.yield ++ more.yield)
  | _, constant token => [token.occurrence]
  | _, literal token => [token.occurrence]
  | _, named token => [token.occurrence]
  | _, this keyword => [keyword.occurrence]
  | _, super keyword dot method => [keyword.occurrence, dot.occurrence, method.occurrence]
  | _, grouping left inner right => left.occurrence :: (inner.yield ++ [right.occurrence])
  | _, noExpression => []
  | _, someExpression value => value.yield
  | _, noInitializer => []
  | _, someInitializer equals value => equals.occurrence :: value.yield
  | _, expressionStatement value semicolon => value.yield ++ [semicolon.occurrence]
  | _, varDeclaration name initializer semicolon =>
    name.occurrence :: (initializer.yield ++ [semicolon.occurrence])
  | _, noClause semicolon => [semicolon.occurrence]
  | _, varClause keyword declaration => keyword.occurrence :: declaration.yield
  | _, expressionClause statement => statement.yield
  | _, expressionOnly statement => statement.yield
  | _, print keyword value semicolon =>
    keyword.occurrence :: (value.yield ++ [semicolon.occurrence])
  | _, .return keyword value semicolon =>
    keyword.occurrence :: (value.yield ++ [semicolon.occurrence])
  | _, block left body right => left.occurrence :: (body.yield ++ [right.occurrence])
  | _, .while keyword left condition right body =>
    keyword.occurrence :: left.occurrence :: (condition.yield ++ right.occurrence :: body.yield)
  | _, .for keyword left initializer condition semicolon increment right body =>
    keyword.occurrence :: left.occurrence :: (initializer.yield ++ (condition.yield ++
      semicolon.occurrence :: (increment.yield ++ right.occurrence :: body.yield)))
  | _, ifThen keyword left condition right thenBranch =>
    keyword.occurrence :: left.occurrence ::
      (condition.yield ++ right.occurrence :: thenBranch.yield)
  | _, ifElse keyword left condition right thenBranch otherwise elseBranch =>
    keyword.occurrence :: left.occurrence :: (condition.yield ++ right.occurrence ::
      (thenBranch.yield ++ otherwise.occurrence :: elseBranch.yield))
  | _, function name leftParen parameters rightParen leftBrace body rightBrace =>
    name.occurrence :: leftParen.occurrence :: ((parameters.elim [] Parameters.yield) ++
      rightParen.occurrence :: leftBrace.occurrence :: (body.yield ++ [rightBrace.occurrence]))
  | _, noMethod => []
  | _, someMethod first others => first.yield ++ others.yield
  | _, .class keyword name superclass left methods right =>
    keyword.occurrence :: name.occurrence :: ((superclass.elim [] Heritage.yield) ++
      left.occurrence :: (methods.yield ++ [right.occurrence]))
  | _, .fun keyword declaration => keyword.occurrence :: declaration.yield
  | _, .var keyword declaration => keyword.occurrence :: declaration.yield
  | _, statementOnly statement => statement.yield
  | _, noDeclaration => []
  | _, declarations first others => first.yield ++ others.yield

/-! ## Trees -/

/-- The value of `true`, `false` or `nil`. -/
def constantValue : TokenKind → Literal
  | .kwTrue => .bool true
  | .kwFalse => .bool false
  | _ => .nil

/-- The tree that is derived. -/
def tree : {s : Symbol} → Derivation s → s.Tree
  | _, assignName target _ value => Expr.assign target.occurrence value.tree
  | _, assignProperty object suffixes _ property _ value =>
    Expr.set (suffixes.tree object.tree) property.occurrence value.tree
  | _, plain inner => inner.tree
  | _, single inner => inner.tree
  -- operators of one tier associate to the left, and so do suffixes
  | _, chain first others => others.tree first.tree
  | _, noOperation => fun left => left
  | _, @operation tier _ operator right others => fun left =>
    others.tree (tier.build left operator.occurrence right.tree)
  | _, unary operator operand => Expr.unary operator.occurrence operand.tree
  | _, call first suffixes => suffixes.tree first.tree
  | _, emptyArguments _ right => fun e => .call e right.occurrence []
  | _, arguments _ first more right _ => fun e => .call e right.occurrence (first.tree :: more.tree)
  | _, access _ name => fun e => .get e name.occurrence
  | _, noSuffix => fun e => e
  | _, someSuffix first others => fun e => others.tree (first.tree e)
  | _, noArgument => []
  | _, argument _ value more => value.tree :: more.tree
  | _, constant token => Expr.literal (constantValue token.kind)
  | _, literal token => Expr.literal token.token.literal
  | _, named token => Expr.name token.occurrence
  | _, this keyword => Expr.this keyword.occurrence
  | _, super keyword _ method => Expr.super keyword.occurrence method.occurrence
  | _, grouping _ inner _ => Expr.grouping inner.tree
  | _, noExpression => none
  | _, someExpression value => some value.tree
  | _, noInitializer => none
  | _, someInitializer _ value => some value.tree
  | _, expressionStatement value _ => Stmt.expression value.tree
  | _, varDeclaration name initializer _ => Stmt.var name.token initializer.tree
  | _, noClause _ => none
  | _, varClause _ declaration => some declaration.tree
  | _, expressionClause statement => some statement.tree
  | _, expressionOnly statement => statement.tree
  | _, print _ value _ => Stmt.print value.tree
  | _, .return keyword value _ => Stmt.return keyword.token value.tree
  | _, block _ body _ => Stmt.block body.tree
  | _, .while _ _ condition _ body => Stmt.while condition.tree body.tree
  -- a `while` whose body ends with the increment, in a block behind the initializer
  | _, .for _ _ initializer condition _ increment _ body =>
    let round := match increment.tree with
      | none => body.tree
      | some step => Stmt.block [body.tree, .expression step]
    let loop := Stmt.while (condition.tree.getD (.literal (.bool true))) round
    match initializer.tree with
    | none => loop
    | some first => Stmt.block [first, loop]
  | _, ifThen _ _ condition _ thenBranch => Stmt.ite condition.tree thenBranch.tree none
  | _, ifElse _ _ condition _ thenBranch _ elseBranch =>
    Stmt.ite condition.tree thenBranch.tree (some elseBranch.tree)
  | _, function name _ parameters _ _ body _ =>
    Function.mk name.token (parameters.elim [] Parameters.tokens) body.tree
  | _, noMethod => []
  | _, someMethod first others => first.tree :: others.tree
  | _, .class _ name superclass _ methods _ =>
    Stmt.class name.occurrence (superclass.map (·.2.occurrence)) methods.tree
  | _, .fun _ declaration => Stmt.function declaration.tree
  | _, .var _ declaration => declaration.tree
  | _, statementOnly statement => statement.tree
  | _, noDeclaration => []
  | _, declarations first others => first.tree :: others.tree

/-! ## First tokens -/

/-- The kinds of tokens that an expression may begin with. -/
def expressionStarts : List TokenKind := [.bang, .minus] ++ operandStarts

/-- The kinds of tokens that a declaration or a statement may begin with. -/
def firsts : List TokenKind := declarationStarts ++ statementStarts ++ expressionStarts

end Derivation

/-- The kinds of tokens with which the words of a symbol begin, unless one of them is empty. -/
def Symbol.starts? : Symbol → Option (List TokenKind)
  | expression | chain _ | unary | expressionStatement => some Derivation.expressionStarts
  | primary => some operandStarts
  | suffix => some [.leftParen, .dot]
  | function | varDeclaration => some [.identifier]
  | statement _ => some (statementStarts ++ Derivation.expressionStarts)
  | declaration => some Derivation.firsts
  | forInitializer => some (.semicolon :: .kwVar :: Derivation.expressionStarts)
  | _ => none

/-- The word begins with a token of one of the kinds. -/
def Starts (kinds : List TokenKind) (word : List Occurrence) : Prop :=
  ∃ o rest, word = o :: rest ∧ o.token.kind ∈ kinds

theorem Starts.mono {kinds kinds' : List TokenKind} {word : List Occurrence}
    (starts : Starts kinds word) (more : ∀ kind ∈ kinds, kind ∈ kinds') : Starts kinds' word := by
  obtain ⟨o, rest, rfl, kind⟩ := starts
  exact ⟨o, rest, rfl, more _ kind⟩

theorem Starts.append {kinds : List TokenKind} {word : List Occurrence}
    (starts : Starts kinds word) (more : List Occurrence) : Starts kinds (word ++ more) := by
  obtain ⟨o, rest, rfl, kind⟩ := starts
  exact ⟨o, rest ++ more, rfl, kind⟩

theorem Terminal.starts {kinds kinds' : List TokenKind} (t : Terminal kinds)
    (more : ∀ kind ∈ kinds, kind ∈ kinds') (rest : List Occurrence) :
    Starts kinds' (t.occurrence :: rest) :=
  ⟨t.occurrence, rest, rfl, more _ t.kind_mem⟩

theorem Terminal.begins {kinds : List TokenKind} (t : Terminal kinds) (rest : List Occurrence) :
    Starts kinds (t.occurrence :: rest) :=
  t.starts (fun _ here => here) rest

/-- Every word of the symbol begins with one of its first tokens. -/
theorem Derivation.starts {s : Symbol} (d : Derivation s) :
    ∀ kinds ∈ s.starts?, Starts kinds d.yield := by
  induction d with
  -- The symbol begins with a token of its own.
  | assignName first | unary first | emptyArguments first | arguments first | access first
  | constant first | literal first | named first | this first | super first | grouping first
  | varDeclaration first | noClause first | varClause first | print first | «return» first
  | block first | «while» first | «for» first | ifThen first | ifElse first | function first
  | «class» first | «fun» first | var first =>
    rintro _ ⟨⟩
    exact first.starts (by decide) _
  -- It begins with another symbol, which is never empty.
  | assignProperty _ _ _ _ _ _ inFirst | call _ _ inFirst =>
    rintro _ ⟨⟩
    exact ((inFirst _ rfl).mono (by decide)).append _
  | chain _ _ inFirst | expressionStatement _ _ inFirst =>
    rintro _ ⟨⟩
    exact (inFirst _ rfl).append _
  -- It is another symbol.
  | plain _ inInner | single _ inInner =>
    rintro _ ⟨⟩
    exact inInner _ rfl
  | expressionClause _ inInner | expressionOnly _ inInner | statementOnly _ inInner =>
    rintro _ ⟨⟩
    exact (inInner _ rfl).mono (by decide)
  | _ => rintro _ ⟨⟩

end Lox.Grammar
