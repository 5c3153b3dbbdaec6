import Lox.Proofs.Grammar.Findings
import Lox.Proofs.Grammar.Productions
import Lox.Proofs.Grammar.Shapes

/-!
# The expressions that the parser reads

A parser that notes no fault has read a word with a derivation, and yields the tree of that derivation.
It takes a token at least to go two levels deeper.
-/

namespace Lox.Grammar

/-- The word has a derivation with the tree. -/
def Derives (symbol : Symbol) (w : List Occurrence) (tree : symbol.Tree) : Prop :=
  ∃ d : Derivation symbol, d.yield = w ∧ d.tree = tree

variable {budget : Nat} {α β : Type}

/-- The same token as one of fewer kinds. -/
def Terminal.narrow {kinds kinds' : List TokenKind} (t : Terminal kinds)
    (here : t.occurrence.token.kind ∈ kinds') : Terminal kinds' :=
  ⟨t.occurrence, here⟩

/-! ## Chains -/

section Chains

variable {operand : Parser Expr} {tighter : List Tier}

theorem operation_finds (tier : Tier) (count : Nat)
    (right : Finder budget (chain operand (tighter.map Tier.layer))
      fun w e _ => Derives (.chain tighter) w e) :
    Finder budget (operation operand tier tighter count) (Found (fun _ => True) fun w item =>
      ∃ (operator : Terminal tier.operators) (d : Derivation (.chain tighter)),
        w = operator.occurrence :: d.yield ∧ item = (operator.occurrence, d.tree)) := by
  intro s counted
  apply Finds.accept? counted
  · exact fun _ => .pure counted ⟨rfl, trivial⟩
  · intro operator advanced
    apply (right.lessBudget (Nat.sub_le budget 1) _ advanced).map
    rintro w e s' - ⟨d, rfl, rfl⟩
    exact ⟨List.cons_ne_nil _ _, operator, d, rfl, rfl⟩

theorem operations_find (tier : Tier)
    (right : Finder budget (chain operand (tighter.map Tier.layer))
      fun w e _ => Derives (.chain tighter) w e) :
    Finder budget (many (operation operand tier tighter)) fun w items _ =>
      ∃ d : Derivation (.operations tier tighter), d.yield = w ∧
        ∀ left, tier.foldl left items = d.tree left := by
  have found := Finder.many _ (fun _ => _)
    (fun _ w items => ∃ d : Derivation (.operations tier tighter), d.yield = w ∧
      ∀ left, tier.foldl left items = d.tree left)
    (fun count => operation_finds tier count right) ?nothing ?more
  · exact found.mono fun _ _ _ holds => holds.2
  · exact fun _ => ⟨.noOperation, rfl, fun _ => rfl⟩
  · rintro _ _ _ _ items ⟨operator, d, rfl, rfl⟩ ⟨others, rfl, tree⟩
    exact ⟨.operation operator d others, rfl, fun left => tree _⟩

theorem chain_finds (finder : Finder budget operand fun w e _ => Derives .unary w e)
    (tiers : List Tier) :
    Finder budget (chain operand (tiers.map Tier.layer))
      fun w e _ => Derives (.chain tiers) w e := by
  induction tiers with
  | nil =>
    apply finder.mono
    rintro w e - ⟨d, rfl, rfl⟩
    exact ⟨.single d, rfl, rfl⟩
  | cons tier tighter inductionHypothesis =>
    rw [chain_cons]
    intro s counted
    apply (inductionHypothesis s counted).bind
    intro first s' onward
    apply (operations_find tier inductionHypothesis s' onward.counted).map
    rintro w' items s'' - ⟨others, rfl, tree⟩ w - ⟨d, rfl, rfl⟩
    exact ⟨.chain d others, rfl, (tree _).symm⟩

end Chains

/-! ## Items with commas between them -/

/-- Items, each after a comma. -/
inductive AfterCommas (Q : List Occurrence → α → Prop) : List Occurrence → List α → Prop where
  | nil : AfterCommas Q [] []
  | cons {w w' : List Occurrence} {a : α} {items : List α} (comma : Terminal [.comma])
      (item : Q w a) (others : AfterCommas Q w' items) :
      AfterCommas Q (comma.occurrence :: (w ++ w')) (a :: items)

section Items

variable {item : Parser α} {Q : List Occurrence → α → Prop}

theorem anotherItem_finds (tooMany : ParseFault) (finder : Finder budget item fun w a _ => Q w a)
    (count : Nat) :
    Finder budget (anotherItem tooMany item count) (Found (fun _ => True) fun w a =>
      count < maxOthers ∧ ∃ (comma : Terminal [.comma]) (w' : List Occurrence),
        w = comma.occurrence :: w' ∧ Q w' a) := by
  intro s counted
  apply Finds.accept counted
  · exact fun _ => .pure counted ⟨rfl, trivial⟩
  · intro comma _ advanced
    have another := finder.lessBudget (Nat.sub_le budget 1)
    by_cases full : maxArguments ≤ count + 1
    · simp only [if_true, full]
      -- one item too many is a fault, so nothing is left to show
      apply (Finds.noteHere advanced tooMany (Q := fun _ _ _ => False)).bind
      intro _ s' onward
      exact (another s' onward.counted).map fun _ _ _ _ _ _ _ impossible => impossible.elim
    · simp only [if_true, full, if_false]
      apply (another _ advanced).map
      intro w a s' _ holds
      refine ⟨List.cons_ne_nil _ _, ?_, comma, w, rfl, holds⟩
      simp only [maxArguments, maxOthers] at full ⊢
      omega

theorem separated_finds (tooMany : ParseFault) (finder : Finder budget item fun w a _ => Q w a) :
    Finder budget (separated tooMany item) fun w items _ => ∃ w₁ first w₂ others,
      w = w₁ ++ w₂ ∧ items = first :: others ∧ Q w₁ first ∧ AfterCommas Q w₂ others ∧
        others.length ≤ maxOthers := by
  -- The count is compared when there is one more item, so of an empty rest the limit says nothing.
  have rest := Finder.many _ (fun count => _)
    (fun count w items => (items = [] ∨ count + items.length ≤ maxOthers) ∧ AfterCommas Q w items)
    (fun count => anotherItem_finds tooMany finder count) ?nothing ?more
  · rw [separated_eq]
    intro s counted
    apply (finder s counted).bind
    intro first s' onward
    apply (rest s' onward.counted).map
    rintro w₂ others s'' - ⟨-, few, all⟩ w₁ - holds
    refine ⟨w₁, first, w₂, others, rfl, rfl, holds, all, ?_⟩
    rcases few with rfl | few
    · exact Nat.zero_le _
    · omega
  · exact fun _ => ⟨.inl rfl, .nil⟩
  · rintro count _ a w' items ⟨few, comma, w, rfl, holds⟩ ⟨fewMore, others⟩
    refine ⟨.inr ?_, .cons comma holds others⟩
    rcases fewMore with rfl | fewMore
    · exact few
    · rw [List.length_cons]
      omega

end Items

/-! ## Operands -/

theorem derives_arguments {w : List Occurrence} {es : List Expr}
    (others : AfterCommas (Derives .expression) w es) :
    ∃ count, ∃ d : Derivation (.arguments count), count = es.length ∧ d.yield = w ∧ d.tree = es := by
  induction others with
  | nil => exact ⟨0, .noArgument, rfl, rfl, rfl⟩
  | cons comma item _ inductionHypothesis =>
    obtain ⟨value, rfl, rfl⟩ := item
    obtain ⟨count, more, length, rfl, rfl⟩ := inductionHypothesis
    exact ⟨count + 1, .argument comma value more, congrArg Nat.succ length, rfl, rfl⟩

section Operands

variable {expression : Parser Expr}
  (finder : Finder budget expression fun w e _ => Derives .expression w e)
include finder

theorem suffix_finds (count : Nat) :
    Finder (budget + 1) ((fun _ => suffix expression) count) (Found (fun _ => True) fun w item =>
      ∃ d : Derivation .suffix, d.yield = w ∧ ∀ e, item.apply e = d.tree e) := by
  intro s counted
  apply Finds.accept counted
  · intro _
    apply Finds.accept counted
    · exact fun _ => .pure counted ⟨rfl, trivial⟩
    · intro dot _ advanced
      apply Finds.expect advanced
      intro name advanced
      exact .pure advanced ⟨List.cons_ne_nil _ _, .access dot name, rfl, fun _ => rfl⟩
  · intro left _ advanced
    -- Both forms of a call are a suffix that begins with the parenthesis already read.
    have found : Finder budget (arguments expression) fun w item _ =>
        ∃ d : Derivation .suffix, d.yield = left.occurrence :: w ∧ ∀ e, item.apply e = d.tree e := by
      intro s counted
      apply Finds.next
      · intro _
        apply Finds.expect counted
        intro right advanced
        exact .pure advanced ⟨.emptyArguments left right, rfl, fun _ => rfl⟩
      · intro _
        apply (separated_finds .tooManyArguments finder s counted).bind
        intro es s' onward
        apply Finds.expect onward.counted
        intro right advanced
        apply Finds.pure advanced
        rintro w - ⟨w₁, first, w₂, others, rfl, rfl, ⟨d, rfl, rfl⟩, all, few⟩
        obtain ⟨count, more, length, rfl, rfl⟩ := derives_arguments all
        exact ⟨.arguments left d more right (length ▸ few), by simp [Derivation.yield], fun _ => rfl⟩
    apply (found _ advanced).map
    rintro w item s' - ⟨d, word, tree⟩
    exact ⟨List.cons_ne_nil _ _, d, word, tree⟩

theorem primary_finds :
    Finder (budget + 1) (primary expression) fun w e _ => Derives .primary w e := by
  intro s counted
  apply Finds.accept? counted
  · exact fun _ => .fail counted .noExpression
  · intro first advanced
    have kind := first.kind_mem
    simp only [operandStarts, List.mem_cons, List.not_mem_nil, or_false] at kind
    rcases kind with same | same | same | same | same | same | same | same | same
    -- the constants, then the literals, and last the operands that each have a rule of their own
    case inl | inr.inl | inr.inr.inl =>
      simp only [same]
      exact .pure advanced ⟨.constant (first.narrow (by simp [same])), rfl, by
        simp [Derivation.tree, Terminal.narrow, Terminal.kind, same, Derivation.constantValue]⟩
    case inr.inr.inr.inl | inr.inr.inr.inr.inl =>
      simp only [same]
      exact .pure advanced ⟨.literal (first.narrow (by simp [same])), rfl, rfl⟩
    · simp only [same]
      apply Finds.skip advanced
      intro dot advanced
      apply Finds.expect advanced
      intro method advanced
      exact .pure advanced ⟨.super (first.narrow (by simp [same])) dot method, rfl, rfl⟩
    · simp only [same]
      exact .pure advanced ⟨.this (first.narrow (by simp [same])), rfl, rfl⟩
    · simp only [same]
      exact .pure advanced ⟨.named (first.narrow (by simp [same])), rfl, rfl⟩
    · simp only [same]
      apply (finder _ advanced).bind
      intro e s' onward
      apply Finds.skip onward.counted
      intro right advanced
      apply Finds.pure advanced
      rintro w - ⟨d, rfl, rfl⟩
      exact ⟨.grouping (first.narrow (by simp [same])) d right, rfl, rfl⟩

theorem operand_finds :
    Finder (budget + 1) (operand expression) fun w e _ => Derives .unary w e := by
  have suffixes := Finder.many _ (fun _ => _)
    (fun _ w items => ∃ d : Derivation .suffixes, d.yield = w ∧
      ∀ e, items.foldl Suffix.apply e = d.tree e) (suffix_finds finder) ?nothing ?more
  · intro s counted
    apply (primary_finds finder s counted).bind
    intro first s' onward
    apply (suffixes s' onward.counted).map
    rintro w' items s'' - ⟨-, others, rfl, tree⟩ w - ⟨d, rfl, rfl⟩
    exact ⟨.call d others, rfl, (tree _).symm⟩
  · exact fun _ => ⟨.noSuffix, rfl, fun _ => rfl⟩
  · rintro _ _ item _ items ⟨d, rfl, here⟩ ⟨others, rfl, tree⟩
    refine ⟨.someSuffix d others, rfl, fun e => ?_⟩
    rw [List.foldl_cons, here]
    exact tree _

end Operands

/-! ## Expressions -/

/-- An assignment that is no fault has a name or a property as its target. -/
theorem assignment_finds (equals : Occurrence) (target value : Expr) :
    Finder budget (assignment equals target value) fun w e _ => w = [] ∧
      ((∃ name, target = .name name ∧ e = .assign name value) ∨
        ∃ object property, target = .get object property ∧ e = .set object property value) := by
  intro s counted
  unfold assignment
  split
  · exact .pure counted ⟨rfl, .inl ⟨_, rfl, rfl⟩⟩
  · exact .pure counted ⟨rfl, .inr ⟨_, _, rfl, rfl⟩⟩
  · apply (Finds.note counted .invalidTarget equals (Q := fun _ _ _ => False)).bind
    intro _ s' onward
    exact .pure onward.counted fun _ _ impossible => impossible.elim

/-- The target that was taken for an expression is read as what it is. -/
theorem derives_assignment {w : List Occurrence} {target e : Expr} (equals : Terminal [.equal])
    (value : Derivation .expression) (derives : Derives (.chain Tier.all) w target)
    (assigned : (∃ name, target = .name name ∧ e = .assign name value.tree) ∨
      ∃ object property, target = .get object property ∧ e = .set object property value.tree) :
    Derives .expression (w ++ equals.occurrence :: value.yield) e := by
  obtain ⟨d, rfl, rfl⟩ := derives
  have operand : ¬IsOperation d.tree := by
    rintro ⟨left, operator, right, operation | operation⟩ <;> rw [operation] at assigned <;>
      rcases assigned with ⟨_, same, -⟩ | ⟨_, _, same, -⟩ <;> cases same
  obtain ⟨u, word, tree⟩ := d.chain_tree operand
  rcases assigned with ⟨name, named, rfl⟩ | ⟨object, property, accessed, rfl⟩
  · obtain ⟨target, rfl, alone⟩ := u.unary_name (tree.trans named)
    exact ⟨.assignName target equals value, by rw [← word, alone]; rfl, rfl⟩
  · obtain ⟨first, suffixes, dot, name, split, rfl, rfl⟩ := u.unary_property (tree.trans accessed)
    exact ⟨.assignProperty first suffixes dot name equals value,
      by rw [← word, split]; simp [Derivation.yield], rfl⟩

theorem expression_finds_succ {depth : Nat}
    (operand : Finder ((depth + 1) / 2) (unary depth) fun w e _ => Derives .unary w e)
    (value : Finder (depth / 2) (expression depth) fun w e _ => Derives .expression w e) :
    Finder ((depth + 1) / 2) (expression (depth + 1)) fun w e _ => Derives .expression w e := by
  have target := chain_finds operand Tier.all
  rw [← layers_eq] at target
  intro s counted
  apply (target s counted).bind
  intro target s' onward
  apply Finds.accept? onward.counted
  · intro _
    apply Finds.pure onward.counted
    rintro w - ⟨d, rfl, rfl⟩
    exact ⟨.plain d, by rw [List.append_nil]; rfl, rfl⟩
  -- What was read as a value turns out to be a target.
  · intro equals advanced
    apply ((value.lessBudget (by omega)) _ advanced).bind
    intro assigned s'' onward
    apply (assignment_finds equals.occurrence target assigned s'' onward.counted).mono
    rintro _ e _ - ⟨rfl, assigns⟩ _ - ⟨v, rfl, rfl⟩ w - derives
    rw [List.append_nil]
    exact derives_assignment equals v derives assigns

theorem unary_finds_succ {depth : Nat}
    (operand : Finder ((depth + 1) / 2) (unary depth) fun w e _ => Derives .unary w e)
    (value : Finder (depth / 2) (expression depth) fun w e _ => Derives .expression w e) :
    Finder ((depth + 2) / 2) (unary (depth + 1)) fun w e _ => Derives .unary w e := by
  intro s counted
  apply Finds.accept? counted
  · intro _
    exact (operand_finds value).lessBudget (by omega) s counted
  · intro operator advanced
    apply ((operand.lessBudget (by omega)) _ advanced).map
    rintro w e s' - ⟨d, rfl, rfl⟩
    exact ⟨.unary operator d, rfl, rfl⟩

theorem expressions_find (depth : Nat) :
    (Finder ((depth + 1) / 2) (unary depth) fun w e _ => Derives .unary w e) ∧
      Finder (depth / 2) (expression depth) fun w e _ => Derives .expression w e := by
  induction depth with
  | zero => exact ⟨fun _ _ => .tooDeep, fun _ _ => .tooDeep⟩
  | succ depth inductionHypothesis =>
    obtain ⟨operand, value⟩ := inductionHypothesis
    exact ⟨unary_finds_succ operand value, expression_finds_succ operand value⟩

theorem expression_finds (depth : Nat) :
    Finder (depth / 2) (expression depth) fun w e _ => Derives .expression w e :=
  (expressions_find depth).2

end Lox.Grammar
