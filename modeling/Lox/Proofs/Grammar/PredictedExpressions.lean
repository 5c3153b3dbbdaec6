import Lox.Proofs.Grammar.Completeness
import Lox.Proofs.Grammar.Rounds

/-!
# Predicted expressions

The parsers of expressions follow the rules of the relaxed grammar, at every depth.
-/

namespace Lox.Grammar

variable {α : Type} {K : Language TokenKind}

/-- The parser follows the rule of expressions, before words that do not go on with one. -/
abbrev PredictsExpression (p : Parser Expr) : Prop :=
  ∀ K, Avoids K afterExpression → Predicts p (.symbol .expression) K

abbrev PredictsUnary (p : Parser Expr) : Prop :=
  ∀ K, Avoids K afterOperand → Predicts p (.symbol .unary) K

section Expressions

variable {operand expression : Parser Expr}

theorem Rule.chain_productive (tiers : List Tier) :
    (Rule.chain tiers).productive Nonterminal.all = true := by
  induction tiers with
  | nil => rfl
  | cons tier tighter inductionHypothesis =>
    simp [Rule.chain, Rule.productive, inductionHypothesis]

theorem chain_predicts (predicts : PredictsUnary operand) (tiers : List Tier)
    (distinct : tiers.Nodup) (avoids : Avoids K (afterChain tiers)) :
    Predicts (chain operand (tiers.map Tier.layer)) (.chain tiers) K := by
  induction tiers generalizing K with
  | nil => exact predicts K avoids
  | cons tier tighter inductionHypothesis =>
    obtain ⟨fresh, distinctTighter⟩ := List.nodup_cons.1 distinct
    have avoidsTighter : Avoids K (afterChain tighter) := avoids.mono fun kind here => by
      rcases List.mem_append.1 here with suffix | operator
      · exact List.mem_append_left _ suffix
      · exact List.mem_append_right _ (List.mem_append_right _ operator)
    -- operators of the tier come after the operands of tighter tiers
    have operands : Predicts (chain operand (tighter.map Tier.layer)) (.chain tighter)
        ((Rule.star (.seq (.token tier.operators) (.chain tighter))).language * K) := by
      refine inductionHypothesis distinctTighter (Rule.avoids ?_ fun _ => avoidsTighter)
      intro kind here there
      exact Tier.operators_fresh fresh kind (by simpa [Rule.firsts, Rule.nullable] using there) here
    have loops : ∀ count, Loops tier.operators.contains (operation operand tier tighter count)
        (.seq (.token tier.operators) (.chain tighter))
        ((Rule.star (.seq (.token tier.operators) (.chain tighter))).language * K) := fun count =>
      .accept? (by cases tier <;> decide) rfl (fun o => operands.map) (fun o => .bind fun a => .some _)
        (Rule.chain_productive tighter)
    have operations := Predicts.many loops (by simp [Rule.firsts, Rule.nullable]) rfl
      fun kind goes => avoids kind (by simp [afterChain, List.contains_iff_mem.1 goes])
    rw [chain_cons]
    exact operands.bind (fun first => operations.map) rfl

theorem separated_predicts {item : Parser α} {a : Rule} {tooMany : ParseFault}
    (noted : tooMany.raised = false)
    (predicts : Predicts item a ((Rule.star (.seq (.token [.comma]) a)).language * K))
    (productive : a.productive Nonterminal.all = true) (avoids : Avoids K [.comma]) :
    Predicts (separated tooMany item) (.separated a) K := by
  have one : Predicts (some <$> item) a ((Rule.star (.seq (.token [.comma]) a)).language * K) :=
    predicts.map
  have loops : ∀ count, Loops (fun k => k == .comma) (anotherItem tooMany item count)
      (.seq (.token [.comma]) a) ((Rule.star (.seq (.token [.comma]) a)).language * K) := by
    intro count
    -- The fault of too many items is only noted, so the count makes no difference to what is read.
    refine .last (by decide) ?_ ?_ productive rfl
    · by_cases full : maxArguments ≤ count + 1
      · simp only [full, if_true]
        exact .andThen (fun _ => .noteHere noted) (fun _ => one) productive
      · simp only [full, if_false]
        exact one
    · by_cases full : maxArguments ≤ count + 1
      · simp only [full, if_true]
        exact .bind fun _ => .bind fun a => .some a
      · simp only [full, if_false]
        exact .bind fun a => .some a
  have others := Predicts.many loops (by simp [Rule.firsts, Rule.nullable]) rfl
    fun kind goes => avoids kind (by simpa using goes)
  exact predicts.bind (fun first => others.map) rfl

theorem arguments_predicts (predicts : PredictsExpression expression) :
    Predicts (arguments expression) .arguments K := by
  have rest : ∀ found : List Expr, Predicts (do
      let paren ← expect .rightParen .noArgumentsEnd
      return Suffix.call paren found) (.token [.rightParen]) K := fun found =>
    (Predicts.expect (by decide) rfl).finish fun _ => .pure
  have comma : Avoids ((Rule.token [.rightParen]).language * K) [.comma] :=
    Rule.solid_avoids rfl (by decide)
  refine .before (by decide) (.andThen (fun _ => .pure) rest rfl) ?_ (by decide) rfl
    (by simp [Rule.firsts]) rfl
  refine (separated_predicts rfl (predicts _ ?_) rfl comma).bind rest rfl
  exact Rule.avoids (by decide) fun _ => Rule.solid_avoids rfl (by decide)

theorem suffix_loops (predicts : PredictsExpression expression) :
    Loops (fun k => k == .leftParen || k == .dot) (suffix expression) .suffix K := by
  refine .accept (by decide) (arguments_predicts predicts).map (.bind fun a => .some _) (by decide) ?_
    (by decide) rfl (by simp [Rule.firsts, Rule.nullable])
  exact .last (by decide) ((Predicts.expect (by decide) rfl).finish fun _ => .pure)
    (.bind fun a => .some _) (by decide) rfl

/-- An operand of one token. -/
theorem primary_narrows {kind : TokenKind}
    (listed : kind ∈ [.kwFalse, .kwTrue, .kwNil, .number, .string, .kwThis, .identifier]) :
    Narrows (.seq (.token [kind]) .empty) .primary K kind := by
  refine (Narrows.pick listed).left ?_ rfl
  revert kind
  decide

theorem primary_predicts (predicts : PredictsExpression expression) :
    Predicts (primary expression) .primary K := by
  have firsts : ∀ kind ∈ Rule.primary.firsts, kind ∈ operandStarts := by decide
  refine .accept? (by decide)
    (fun kind other => ⟨_, .fail rfl, .nothing (fun here => other (firsts kind here)) rfl⟩)
    fun o listed => ?_
  simp only [operandStarts, List.mem_cons, List.not_mem_nil, or_false] at listed
  rcases listed with kind | kind | kind | kind | kind | super | kind | kind | paren
  -- Only a method of the superclass and a group go on after their first token.
  case inr.inr.inr.inr.inr.inl =>
    simp only [super]
    refine ⟨.seq (.token [.dot]) (.token [.identifier]), ?_, rfl,
      (Narrows.refl.left (by decide) rfl).right (by decide) rfl⟩
    exact (Predicts.skip (by decide) rfl).bind
      (fun _ => (Predicts.expect (by decide) rfl).finish fun _ => .pure) rfl
  case inr.inr.inr.inr.inr.inr.inr.inr =>
    simp only [paren]
    refine ⟨.seq (.symbol .expression) (.token [.rightParen]), ?_, rfl,
      (Narrows.refl.right (by decide) rfl).right (by decide) rfl⟩
    exact (predicts _ (Rule.solid_avoids rfl (by decide))).bind
      (fun _ => (Predicts.skip (by decide) rfl).finish fun _ => .pure) rfl
  all_goals
    simp only [kind]
    exact ⟨.empty, .pure, rfl, primary_narrows (by decide)⟩

theorem operand_predicts (predicts : PredictsExpression expression) (avoids : Avoids K afterOperand) :
    Predicts (Grammar.operand expression) (.seq .primary (.star .suffix)) K := by
  have loops : ∀ count : Nat, Loops (fun k => k == .leftParen || k == .dot) (suffix expression) .suffix
      ((Rule.star .suffix).language * K) := fun _ => suffix_loops predicts
  have suffixes := Predicts.many loops (by decide) rfl fun kind goes =>
    avoids kind (by simpa [afterOperand] using goes)
  exact (primary_predicts predicts).bind (fun first => suffixes.map) rfl

theorem assignment_predicts (equals : Occurrence) (target value : Expr) :
    Predicts (assignment equals target value) .empty K := by
  have noted : Predicts (do
      note .invalidTarget equals
      return target) .empty K := (Predicts.note rfl equals).finish fun _ => .pure
  cases target with
  | name | get => exact .pure
  | _ => exact noted

mutual

theorem expression_predicts (depth : Nat) : PredictsExpression (Grammar.expression depth) := by
  intro K avoids
  cases depth with
  | zero => exact .tooDeep
  | succ depth =>
    have rest : ∀ target : Expr, Predicts (do
        match ← accept? [.equal] with
        | none => return target
        | some equals => assignment equals target (← Grammar.expression depth))
        (.option (.seq (.token [.equal]) (.symbol .expression))) K := by
      intro target
      refine .accept? (by decide) (fun kind other => ⟨_, .pure, .leave other rfl⟩) fun o listed => ?_
      rw [List.mem_singleton.1 listed]
      refine ⟨_, (expression_predicts depth K avoids).finish fun value =>
        assignment_predicts o target value, rfl, .take fun v member => ?_⟩
      exact absurd member (avoids _ List.mem_cons_self v)
    -- A chain of operators is followed by an assignment, or by what follows the expression.
    have operands : Avoids ((Rule.option (.seq (.token [.equal]) (.symbol .expression))).language * K)
        (afterChain Tier.all) :=
      Rule.avoids (by decide) fun _ => avoids.mono fun kind here => List.mem_cons_of_mem _ here
    rw [Grammar.expression, layers_eq]
    refine Predicts.congr ?_ Rule.language_symbol.symm
    exact (chain_predicts (unary_predicts depth) Tier.all (by decide) operands).bind rest rfl

theorem unary_predicts (depth : Nat) : PredictsUnary (Grammar.unary depth) := by
  intro K avoids
  cases depth with
  | zero => exact .tooDeep
  | succ depth =>
    rw [Grammar.unary]
    refine .accept? (by decide) (fun kind other => ⟨_, operand_predicts (expression_predicts depth)
      avoids, (Narrows.refl.right other rfl).symbol⟩) fun o listed => ?_
    refine ⟨_, (unary_predicts depth K avoids).map, rfl, ((Narrows.enter listed).left ?_ rfl).symbol⟩
    generalize o.token.kind = kind at listed
    revert kind
    decide

end

end Expressions

end Lox.Grammar
