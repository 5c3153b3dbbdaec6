import Lox.Proofs.Grammar.Derivation
import Mathlib.Computability.Language

/-!
# The relaxed grammar

A grammar in extended form that says what may stand where, and no more: anything may be assigned to, and
there is no limit to the number of parameters or arguments. It derives words of kinds of tokens. A rule
tells with which kinds its words begin, and whether it derives a word at all.
-/

namespace Lox.Grammar

/-! ## Rules -/

inductive Nonterminal where
  | declaration
  | statement
  | expression
  | unary
deriving DecidableEq

inductive Rule where
  | empty
  /-- One token of one of the kinds. -/
  | token (kinds : List TokenKind)
  | symbol (n : Nonterminal)
  | seq (first second : Rule)
  | either (left right : Rule)
  | star (inner : Rule)

namespace Rule

/-- Once or not at all. -/
def option (r : Rule) : Rule := .either r .empty

/-- One item, and others after commas. -/
def separated (item : Rule) : Rule := .seq item (.star (.seq (.token [.comma]) item))

/-- One of several forms, each after a token of its own, or else another. -/
def select : List (TokenKind × Rule) → Rule → Rule
  | [], otherwise => otherwise
  | (kind, form) :: forms, otherwise => .either (.seq (.token [kind]) form) (select forms otherwise)

/-- What follows the opening parenthesis of a call. -/
def arguments : Rule := .seq (option (separated (.symbol .expression))) (.token [.rightParen])

def suffix : Rule :=
  .either (.seq (.token [.leftParen]) arguments) (.seq (.token [.dot]) (.token [.identifier]))

def primary : Rule :=
  .either (.token [.kwFalse, .kwTrue, .kwNil, .number, .string, .kwThis, .identifier])
    (.either (.seq (.token [.kwSuper]) (.seq (.token [.dot]) (.token [.identifier])))
      (.seq (.token [.leftParen]) (.seq (.symbol .expression) (.token [.rightParen]))))

/-- Operands with operators of the tiers between them. -/
def chain : List Tier → Rule
  | [] => .symbol .unary
  | tier :: tighter =>
    .seq (chain tighter) (.star (.seq (.token tier.operators) (chain tighter)))

/-- What follows the opening brace of a block. -/
def block : Rule := .seq (.star (.symbol .declaration)) (.token [.rightBrace])

/-- A function from its name on. -/
def function : Rule :=
  .seq (.token [.identifier]) (.seq (.token [.leftParen])
    (.seq (option (separated (.token [.identifier]))) (.seq (.token [.rightParen])
      (.seq (.token [.leftBrace]) block))))

/-- A class from its name on. -/
def classBody : Rule :=
  .seq (.token [.identifier]) (.seq (option (.seq (.token [.less]) (.token [.identifier])))
    (.seq (.token [.leftBrace]) (.seq (.star function) (.token [.rightBrace]))))

/-- A variable from its name on. -/
def variableBody : Rule :=
  .seq (.token [.identifier]) (.seq (option (.seq (.token [.equal]) (.symbol .expression)))
    (.token [.semicolon]))

/-- An expression and the semicolon after it. -/
def line : Rule := .seq (.symbol .expression) (.token [.semicolon])

def returnBody : Rule := .seq (option (.symbol .expression)) (.token [.semicolon])

def whileBody : Rule :=
  .seq (.token [.leftParen]) (.seq (.symbol .expression) (.seq (.token [.rightParen])
    (.symbol .statement)))

/-- The `else` of a conditional. -/
def alternative : Rule := .seq (.token [.kwElse]) (.symbol .statement)

def ifBody : Rule :=
  .seq (.token [.leftParen]) (.seq (.symbol .expression) (.seq (.token [.rightParen])
    (.seq (.symbol .statement) (option alternative))))

def forInitializer : Rule :=
  .either (.token [.semicolon]) (.either (.seq (.token [.kwVar]) variableBody) line)

def forBody : Rule :=
  .seq (.token [.leftParen]) (.seq forInitializer (.seq (option (.symbol .expression))
    (.seq (.token [.semicolon]) (.seq (option (.symbol .expression)) (.seq (.token [.rightParen])
      (.symbol .statement))))))

def program : Rule := .star (.symbol .declaration)

end Rule

/-- What a nonterminal stands for. -/
def Nonterminal.production : Nonterminal → Rule
  | declaration =>
    .select [(.kwClass, .classBody), (.kwFun, .function), (.kwVar, .variableBody)]
      (.symbol .statement)
  | statement =>
    .select [(.kwFor, .forBody), (.kwIf, .ifBody), (.kwPrint, .line), (.kwReturn, .returnBody),
      (.kwWhile, .whileBody), (.leftBrace, .block)] .line
  | expression => .seq (.chain Tier.all) (.option (.seq (.token [.equal]) (.symbol .expression)))
  | unary =>
    .either (.seq (.token [.bang, .minus]) (.symbol .unary)) (.seq .primary (.star .suffix))

/-- The rule derives the word. -/
inductive Rule.Derives : Rule → List TokenKind → Prop where
  | empty : Derives .empty []
  | token {kinds : List TokenKind} {kind : TokenKind} (listed : kind ∈ kinds) :
      Derives (.token kinds) [kind]
  | symbol {n : Nonterminal} {w : List TokenKind} (derives : Derives n.production w) :
      Derives (.symbol n) w
  | seq {first second : Rule} {v w : List TokenKind} (left : Derives first v)
      (right : Derives second w) : Derives (.seq first second) (v ++ w)
  | left {left right : Rule} {w : List TokenKind} (derives : Derives left w) :
      Derives (.either left right) w
  | right {left right : Rule} {w : List TokenKind} (derives : Derives right w) :
      Derives (.either left right) w
  | done {inner : Rule} : Derives (.star inner) []
  | more {inner : Rule} {v w : List TokenKind} (once : Derives inner v)
      (others : Derives (.star inner) w) : Derives (.star inner) (v ++ w)

/-- A program of the relaxed grammar. -/
def IsProgram (word : List TokenKind) : Prop := Rule.program.Derives word

/-! ## Languages -/

/-- The words that a rule derives. -/
def Rule.language (r : Rule) : Language TokenKind := {w | r.Derives w}

namespace Rule

variable {a b : Rule}

theorem language_empty : Rule.empty.language = 1 := by
  ext w
  rw [Language.mem_one]
  constructor
  · intro derives
    cases derives
    rfl
  · rintro rfl
    exact .empty

theorem language_symbol {n : Nonterminal} : (Rule.symbol n).language = n.production.language := by
  ext w
  constructor
  · intro derives
    cases derives with
    | symbol derives => exact derives
  · exact .symbol

theorem language_seq : (Rule.seq a b).language = a.language * b.language := by
  ext w
  rw [Language.mem_mul]
  constructor
  · intro derives
    cases derives with
    | seq left right => exact ⟨_, left, _, right, rfl⟩
  · rintro ⟨v, left, w, right, rfl⟩
    exact .seq left right

theorem language_either : (Rule.either a b).language = a.language + b.language := by
  ext w
  rw [Language.mem_add]
  constructor
  · intro derives
    cases derives with
    | left derives => exact .inl derives
    | right derives => exact .inr derives
  · rintro (derives | derives)
    · exact .left derives
    · exact .right derives

theorem language_star : (Rule.star a).language = 1 + a.language * (Rule.star a).language := by
  ext w
  rw [Language.mem_add, Language.mem_one, Language.mem_mul]
  constructor
  · intro derives
    cases derives with
    | done => exact .inl rfl
    | more once others => exact .inr ⟨_, once, _, others, rfl⟩
  · rintro (rfl | ⟨v, once, w, others, rfl⟩)
    · exact .done
    · exact .more once others

theorem language_option : a.option.language = a.language + 1 := by
  rw [option, language_either, language_empty]

theorem language_token_nil : (Rule.token []).language = 0 := by
  ext w
  refine iff_of_false (fun word => ?_) (Language.notMem_zero w)
  cases word with
  | token listed => cases listed

theorem language_seq_empty : (Rule.seq a .empty).language = a.language := by
  rw [language_seq, language_empty, mul_one]

theorem language_empty_seq : (Rule.seq .empty a).language = a.language := by
  rw [language_seq, language_empty, one_mul]

theorem language_seq_seq {c : Rule} :
    (Rule.seq (.seq a b) c).language = (Rule.seq a (.seq b c)).language := by
  simp only [language_seq, mul_assoc]

end Rule

/-! ## First tokens -/

/-- The kinds with which the words of a nonterminal begin. -/
def Nonterminal.starts : Nonterminal → List TokenKind
  | declaration => Derivation.firsts
  | statement => statementStarts ++ Derivation.expressionStarts
  | expression | unary => Derivation.expressionStarts

namespace Rule

/-- Whether the rule may derive the empty word. -/
def nullable : Rule → Bool
  | empty | star _ => true
  | token _ | symbol _ => false
  | seq first second => first.nullable && second.nullable
  | either left right => left.nullable || right.nullable

/-- The kinds with which words of the rule may begin. -/
def firsts : Rule → List TokenKind
  | empty => []
  | token kinds => kinds
  | symbol n => n.starts
  | seq first second => first.firsts ++ if first.nullable then second.firsts else []
  | either left right => left.firsts ++ right.firsts
  | star inner => inner.firsts

end Rule

theorem Rule.select_firsts (forms : List (TokenKind × Rule)) (otherwise : Rule) :
    (Rule.select forms otherwise).firsts = forms.map Prod.fst ++ otherwise.firsts := by
  induction forms with
  | nil => rfl
  | cons form forms inductionHypothesis =>
    simp [Rule.select, Rule.firsts, Rule.nullable, inductionHypothesis]

theorem Rule.select_nullable (forms : List (TokenKind × Rule)) (otherwise : Rule) :
    (Rule.select forms otherwise).nullable = otherwise.nullable := by
  induction forms with
  | nil => rfl
  | cons form forms inductionHypothesis =>
    simp [Rule.select, Rule.nullable, inductionHypothesis]

theorem Nonterminal.production_nullable (n : Nonterminal) : n.production.nullable = false := by
  cases n <;> rfl

theorem Nonterminal.production_firsts (n : Nonterminal) :
    ∀ kind ∈ n.production.firsts, kind ∈ n.starts := by
  cases n <;> decide

namespace Rule.Derives

variable {r : Rule} {w : List TokenKind}

theorem nullable (derives : r.Derives w) (empty : w = []) : r.nullable = true := by
  induction derives with
  | empty | done | more => rfl
  | token => cases empty
  | @symbol n _ _ inductionHypothesis =>
    have nullable := inductionHypothesis empty
    rw [n.production_nullable] at nullable
    cases nullable
  | seq _ _ first second =>
    obtain ⟨rfl, rfl⟩ := List.append_eq_nil_iff.1 empty
    rw [Rule.nullable, first rfl, second rfl]
    rfl
  | left _ inductionHypothesis => rw [Rule.nullable, inductionHypothesis empty, Bool.true_or]
  | right _ inductionHypothesis => rw [Rule.nullable, inductionHypothesis empty, Bool.or_true]

theorem head_mem (derives : r.Derives w) : ∀ kind ∈ w.head?, kind ∈ r.firsts := by
  induction derives with
  | empty | done => exact fun _ here => nomatch here
  | token listed =>
    rintro _ ⟨⟩
    exact listed
  | @symbol n _ _ inductionHypothesis =>
    exact fun kind here => n.production_firsts kind (inductionHypothesis kind here)
  | @seq _ _ v _ left _ first second =>
    intro kind here
    rw [Rule.firsts, List.mem_append]
    -- A first part without tokens leaves the head to the second, and is nullable.
    cases v with
    | nil =>
      rw [if_pos (left.nullable rfl)]
      exact .inr (second kind here)
    | cons => exact .inl (first kind here)
  | left _ inductionHypothesis =>
    exact fun kind here => List.mem_append_left _ (inductionHypothesis kind here)
  | right _ inductionHypothesis =>
    exact fun kind here => List.mem_append_right _ (inductionHypothesis kind here)
  | @more _ v _ _ _ first others =>
    cases v with
    | nil => exact others
    | cons => exact first

end Rule.Derives

/-! ## Words -/

/-- Whether the rule derives a word, if the given nonterminals do. -/
def Rule.productive (known : List Nonterminal) : Rule → Bool
  | empty | star _ => true
  | token kinds => !kinds.isEmpty
  | symbol n => known.contains n
  | seq first second => first.productive known && second.productive known
  | either left right => left.productive known || right.productive known

theorem Rule.exists_derives {known : List Nonterminal}
    (words : ∀ n ∈ known, ∃ w, (Rule.symbol n).Derives w) {r : Rule}
    (productive : r.productive known = true) : ∃ w, r.Derives w := by
  induction r with
  | empty => exact ⟨[], .empty⟩
  | star => exact ⟨[], .done⟩
  | token kinds =>
    cases kinds with
    | nil => cases productive
    | cons kind => exact ⟨[kind], .token List.mem_cons_self⟩
  | symbol n => exact words n (List.contains_iff_mem.1 productive)
  | seq first second inFirst inSecond =>
    rw [Rule.productive, Bool.and_eq_true] at productive
    obtain ⟨v, left⟩ := inFirst productive.1
    obtain ⟨w, right⟩ := inSecond productive.2
    exact ⟨v ++ w, .seq left right⟩
  | either left right inLeft inRight =>
    rw [Rule.productive, Bool.or_eq_true] at productive
    obtain productive | productive := productive
    · obtain ⟨w, derives⟩ := inLeft productive
      exact ⟨w, .left derives⟩
    · obtain ⟨w, derives⟩ := inRight productive
      exact ⟨w, .right derives⟩

/-- All nonterminals, each after those that it needs for a word. -/
def Nonterminal.all : List Nonterminal := [unary, expression, statement, declaration]

theorem Nonterminal.exists_derives (n : Nonterminal) : ∃ w, (Rule.symbol n).Derives w := by
  have step : ∀ known : List Nonterminal, (∀ n ∈ known, ∃ w, (Rule.symbol n).Derives w) →
      ∀ n : Nonterminal, n.production.productive known = true → ∃ w, (Rule.symbol n).Derives w := by
    intro known words n productive
    obtain ⟨w, derives⟩ := Rule.exists_derives words productive
    exact ⟨w, .symbol derives⟩
  have unary := step [] (by simp) .unary (by decide)
  have expression := step [.unary] (by simpa using unary) .expression (by decide)
  have statement := step [.expression] (by simpa using expression) .statement (by decide)
  have declaration := step [.statement] (by simpa using statement) .declaration (by decide)
  cases n
  · exact declaration
  · exact statement
  · exact expression
  · exact unary

/-- Every rule of the grammar derives a word. -/
theorem Rule.exists_word {r : Rule} (productive : r.productive Nonterminal.all = true) :
    ∃ w, w ∈ r.language :=
  Rule.exists_derives (fun n _ => n.exists_derives) productive

end Lox.Grammar
