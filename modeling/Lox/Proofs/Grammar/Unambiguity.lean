import Lox.Proofs.Grammar.DerivedPrograms

/-!
# Derivations are unique

Two derivations that begin at one place are the same, if after neither of them a token follows with
which it could have gone on. The first token of a word tells its production, but for expressions: there
the trees that the parser builds tell assignments from chains.
-/

namespace Lox.Grammar

/-! ## Two words at one place -/

/-- Two words that begin at one place, and what holds of the states after them. -/
def Fork (s : State) (w : List Occurrence) (P : State → Prop) (w' : List Occurrence)
    (P' : State → Prop) : Prop :=
  s.Counted ∧ ∃ t t', s.Passes w t ∧ P t ∧ s.Passes w' t' ∧ P' t'

namespace Fork

variable {s : State} {w w' w₁ w₁' : List Occurrence} {P P' Q Q' : State → Prop}
variable {kinds kinds' : List TokenKind}

theorem symm (fork : Fork s w P w' P') : Fork s w' P' w P := by
  obtain ⟨counted, t, t', passes, holds, passes', holds'⟩ := fork
  exact ⟨counted, t', t, passes', holds', passes, holds⟩

theorem weaken (fork : Fork s w P w' P') (implies : ∀ s, P s → Q s) (implies' : ∀ s, P' s → Q' s) :
    Fork s w Q w' Q' := by
  obtain ⟨counted, t, t', passes, holds, passes', holds'⟩ := fork
  exact ⟨counted, t, t', passes, implies t holds, passes', implies' t' holds'⟩

/-- The first tokens are the same. -/
theorem same {t u : Terminal kinds} (fork : Fork s (t.occurrence :: w) P (u.occurrence :: w') P') :
    Fork s.advance w P w' P' ∧ t = u := by
  obtain ⟨counted, x, x', passes, holds, passes', holds'⟩ := fork
  obtain ⟨t, listed⟩ := t
  obtain ⟨u, listed'⟩ := u
  cases passes with
  | token ahead others =>
    cases passes' with
    | token ahead' others' =>
      cases ahead.symm.trans ahead'
      have advanced := (s.advance_onward counted ahead).1.counted
      exact ⟨⟨advanced, x, x', others, holds, others', holds'⟩, rfl⟩

/-- The first parts, and the others if the first parts are the same. -/
theorem split (fork : Fork s (w₁ ++ w) P (w₁' ++ w') P') (before : Before Q w P)
    (before' : Before Q' w' P') :
    Fork s w₁ Q w₁' Q' ∧ (w₁ = w₁' → ∃ s', Fork s' w P w' P') := by
  obtain ⟨counted, x, x', passes, holds, passes', holds'⟩ := fork
  obtain ⟨t, first, rest⟩ := passes.split
  obtain ⟨t', first', rest'⟩ := passes'.split
  refine ⟨⟨counted, t, t', first, before t x rest holds, first', before' t' x' rest' holds'⟩, ?_⟩
  rintro rfl
  cases first.eq_of_word first'
  exact ⟨t, first.counted counted, x, x', rest, holds, rest', holds'⟩

/-- No token begins both words. -/
theorem clash (fork : Fork s w P w' P') (starts : Starts kinds w) (starts' : Starts kinds' w')
    (differ : ∀ kind ∈ kinds, kind ∉ kinds') : False := by
  obtain ⟨-, t, t', passes, -, passes', -⟩ := fork
  obtain ⟨u, ahead, listed⟩ := starts'.meets passes'
  exact (starts.meets passes).avoids differ u ahead listed

/-- What follows the empty word cannot begin the other one. -/
theorem ends (fork : Fork s [] P w' P') (starts : Starts kinds w')
    (avoids : ∀ s, P s → s.Avoids kinds) : False := by
  obtain ⟨-, t, t', passes, holds, passes', -⟩ := fork
  cases passes
  obtain ⟨u, ahead, listed⟩ := starts.meets passes'
  exact avoids s holds u ahead listed

end Fork

/-! ## First tokens of productions -/

namespace Derivation

/-- The kinds of tokens with which the words of a production begin, unless it is empty. -/
def heads : {s : Symbol} → Derivation s → List TokenKind
  | _, @operation tier _ _ _ _ => tier.operators
  | _, unary _ _ => [.bang, .minus]
  | _, call _ _ => operandStarts
  | _, emptyArguments _ _ | _, arguments _ _ _ _ _ => [.leftParen]
  | _, access _ _ => [.dot]
  | _, someSuffix _ _ => afterOperand
  | _, argument _ _ _ => [.comma]
  | _, constant _ => [.kwTrue, .kwFalse, .kwNil]
  | _, literal _ => [.number, .string]
  | _, named _ => [.identifier]
  | _, this _ => [.kwThis]
  | _, super _ _ _ => [.kwSuper]
  | _, grouping _ _ _ => [.leftParen]
  | _, someExpression _ => expressionStarts
  | _, someInitializer _ _ => [.equal]
  | _, noClause _ => [.semicolon]
  | _, varClause _ _ => [.kwVar]
  | _, expressionClause _ => expressionStarts
  | _, expressionOnly _ => expressionStarts
  | _, print _ _ _ => [.kwPrint]
  | _, .return _ _ _ => [.kwReturn]
  | _, block _ _ _ => [.leftBrace]
  | _, .while _ _ _ _ _ => [.kwWhile]
  | _, .for _ _ _ _ _ _ _ _ => [.kwFor]
  | _, ifThen _ _ _ _ _ | _, ifElse _ _ _ _ _ _ _ => [.kwIf]
  | _, someMethod _ _ => [.identifier]
  | _, .class _ _ _ _ _ _ => [.kwClass]
  | _, .fun _ _ => [.kwFun]
  | _, .var _ _ => [.kwVar]
  | _, statementOnly _ => statementStarts ++ expressionStarts
  | _, declarations _ _ => firsts
  | _, _ => []

theorem starts_heads {s : Symbol} (d : Derivation s) (nonempty : d.heads ≠ []) :
    Starts d.heads d.yield := by
  cases d with
  | operation first | unary first | emptyArguments first | arguments first | access first
  | argument first | constant first | literal first | named first | this first | super first
  | grouping first | someInitializer first | noClause first | varClause first | print first
  | «return» first | block first | «while» first | «for» first | ifThen first | ifElse first
  | «class» first | «fun» first | var first =>
    exact first.begins _
  | call first | someSuffix first | someMethod first | declarations first =>
    exact (first.starts _ rfl).append _
  | someExpression inner | expressionClause inner | expressionOnly inner | statementOnly inner =>
    exact inner.starts _ rfl
  | _ => exact absurd rfl nonempty

end Derivation

/-- No token is of one of the kinds on both sides. -/
def apart (kinds kinds' : List TokenKind) : Bool :=
  !kinds.isEmpty && !kinds'.isEmpty && kinds.all fun kind => !kinds'.contains kind

/-- Productions whose words begin with different tokens. -/
theorem Fork.apart {symbol symbol' : Symbol} {d : Derivation symbol} {d' : Derivation symbol'}
    {s : State} {P P' : State → Prop} (fork : Fork s d.yield P d'.yield P')
    (differ : apart d.heads d'.heads = true) : False := by
  simp only [Grammar.apart, Bool.and_eq_true, Bool.not_eq_true', List.all_eq_true,
    List.isEmpty_eq_false_iff] at differ
  obtain ⟨⟨nonempty, nonempty'⟩, others⟩ := differ
  apply fork.clash (d.starts_heads nonempty) (d'.starts_heads nonempty')
  intro kind here there
  simpa [there] using others kind here

/-! ## Assignments and chains -/

/-- With a large enough budget the parser does read the word. -/
theorem Accepts.ok {α : Type} {p : Parser α} {w : List Occurrence} {P : State → Prop} {a : α}
    {s s' : State} {Q : List Occurrence → α → State → Prop} (accepts : Accepts p w P a)
    (counted : s.Counted) (passes : s.Passes w s') (after : P s')
    (ample : Finds (s.ahead.length + 1) p s Q) : p s = .ok a s' := by
  obtain ⟨fits, runs⟩ := accepts
  have run := runs s s' counted passes after
  by_cases fit : fits
  · exact run.ok fit
  · obtain ⟨stop, halts⟩ := run.halts fit
    unfold Finds at ample
    rw [halts] at ample
    exact absurd ample (Nat.not_succ_le_self _)

/-- Two derivations of expressions at one place have the same tree: the one that the parser builds. -/
theorem expression_agree {s : State} {d d' : Derivation .expression}
    (fork : Fork s d.yield (State.Avoids afterExpression) d'.yield (State.Avoids afterExpression)) :
    d.tree = d'.tree := by
  obtain ⟨counted, t, t', passes, avoids, passes', avoids'⟩ := fork
  have depth := expression_finds (2 * s.ahead.length + 2)
  have ample := depth.lessBudget (by omega : s.ahead.length + 1 ≤ _) s counted
  have here := (d.accepted _).ok counted passes avoids ample
  have there := (d'.accepted _).ok counted passes' avoids' ample
  have both := here.symm.trans there
  simp only [EStateM.Result.ok.injEq] at both
  exact both.1

/-! ## Uniqueness -/

/-- What has to hold after the words of a symbol. -/
def Symbol.After : Symbol → State → Prop
  | expression => State.Avoids afterExpression
  | chain tiers => State.Avoids (afterChain tiers)
  | operations tier tighter => State.Avoids (afterChain (tier :: tighter))
  | unary | suffixes => State.Avoids afterOperand
  | arguments _ => State.Avoids (.comma :: afterExpression)
  | optional => State.Avoids (Derivation.expressionStarts ++ afterExpression)
  | initializer => State.Avoids afterExpression
  | statement dangling => AfterStatement dangling
  | methods => State.Avoids [.identifier]
  | declaration => State.Avoids [.kwElse]
  | declarations => State.Avoids (.kwElse :: Derivation.firsts)
  | _ => fun _ => True

/-- Where suffixes may stop: from one such place to another there is no way over suffixes. -/
def Final (Stop : State → Prop) : Prop :=
  ∀ s (first : Derivation .suffix) (others : Derivation .suffixes),
    ¬Fork s [] Stop (first.yield ++ others.yield) Stop

/-- Any derivation that begins at the same place is the same. -/
def Unique : {symbol : Symbol} → Derivation symbol → Prop
  | .chain tiers, d => tiers.Nodup → ∀ d' s,
    Fork s d.yield (Symbol.chain tiers).After d'.yield (Symbol.chain tiers).After → d = d'
  | .operations tier tighter, d => (tier :: tighter).Nodup → ∀ d' s,
    Fork s d.yield (Symbol.operations tier tighter).After d'.yield
      (Symbol.operations tier tighter).After → d = d'
  | .suffixes, d => ∀ Stop, Final Stop → ∀ d' s, Fork s d.yield Stop d'.yield Stop → d = d'
  | .arguments count, d => ∀ count' (d' : Derivation (.arguments count')) s,
    Fork s d.yield (Symbol.arguments count).After d'.yield (Symbol.arguments count').After →
      (⟨count, d⟩ : Σ count, Derivation (.arguments count)) = ⟨count', d'⟩
  | .statement dangling, d => ∀ dangling' (d' : Derivation (.statement dangling')) s,
    Fork s d.yield (Symbol.statement dangling).After d'.yield (Symbol.statement dangling').After →
      (⟨dangling, d⟩ : Σ dangling, Derivation (.statement dangling)) = ⟨dangling', d'⟩
  | symbol, d => ∀ d' s, Fork s d.yield symbol.After d'.yield symbol.After → d = d'

theorem Fork.first {symbol : Symbol} {d d' : Derivation symbol} {s : State} {w w' : List Occurrence}
    {P P' : State → Prop}
    (unique : ∀ d' s, Fork s d.yield symbol.After d'.yield symbol.After → d = d')
    (fork : Fork s (d.yield ++ w) P (d'.yield ++ w') P') (before : Before symbol.After w P)
    (before' : Before symbol.After w' P') : (∃ s', Fork s' w P w' P') ∧ d = d' := by
  obtain ⟨here, rest⟩ := fork.split before before'
  have same := unique d' s here
  exact ⟨rest (by rw [same]), same⟩

/-- The first part and the token that closes it, and what remains behind them. -/
theorem Fork.closed {symbol : Symbol} {d d' : Derivation symbol} {kinds : List TokenKind}
    {t t' : Terminal kinds} {s : State} {w w' : List Occurrence} {P P' : State → Prop}
    (unique : ∀ d' s, Fork s d.yield symbol.After d'.yield symbol.After → d = d')
    (fork : Fork s (d.yield ++ t.occurrence :: w) P (d'.yield ++ t'.occurrence :: w') P')
    (before : Before symbol.After (t.occurrence :: w) P)
    (before' : Before symbol.After (t'.occurrence :: w') P') :
    (∃ s', Fork s' w P w' P') ∧ d = d' ∧ t = t' := by
  obtain ⟨⟨s', closing⟩, same⟩ := fork.first unique before before'
  obtain ⟨rest, sameToken⟩ := closing.same
  exact ⟨⟨s'.advance, rest⟩, same, sameToken⟩

/-- A first token, the part behind it and the token that closes it. -/
theorem Fork.enclosed {symbol : Symbol} {d d' : Derivation symbol} {opening closing : List TokenKind}
    {t t' : Terminal opening} {u u' : Terminal closing} {s : State} {P P' : State → Prop}
    (unique : ∀ d' s, Fork s d.yield symbol.After d'.yield symbol.After → d = d')
    (fork : Fork s (t.occurrence :: (d.yield ++ [u.occurrence])) P
      (t'.occurrence :: (d'.yield ++ [u'.occurrence])) P')
    (before : Before symbol.After [u.occurrence] P) (before' : Before symbol.After [u'.occurrence] P') :
    t = t' ∧ d = d' ∧ u = u' := by
  obtain ⟨rest, same⟩ := fork.same
  obtain ⟨-, parts⟩ := rest.closed unique before before'
  exact ⟨same, parts⟩

/-- The dot, the name and the equals sign at the end of the target of an assignment. -/
def AtTarget (s : State) : Prop :=
  ∃ (dot : Terminal [.dot]) (name : Identifier) (s' : State),
    s.Passes [dot.occurrence, name.occurrence] s' ∧ s'.Meets [.equal]

theorem before_target (dot : Terminal [.dot]) (property : Identifier) (equals : Terminal [.equal])
    {w : List Occurrence} {P : State → Prop} :
    Before AtTarget (dot.occurrence :: property.occurrence :: equals.occurrence :: w) P := by
  intro s s' passes _
  have parts : s.Passes ([dot.occurrence, property.occurrence] ++ equals.occurrence :: w) s' := passes
  obtain ⟨t, target, rest⟩ := parts.split
  exact ⟨dot, property, t, target, (equals.begins w).meets rest⟩

theorem final_afterOperand : Final (State.Avoids afterOperand) := by
  intro s first others fork
  exact fork.ends ((first.starts _ rfl).append _) fun _ avoids => avoids

theorem final_atTarget : Final AtTarget := by
  rintro s first others ⟨counted, _, s', here, ⟨dot, name, t, target, equals⟩, passes, again⟩
  cases here
  have dotNext : s'.Meets [.dot] := by
    obtain ⟨dot', name', t', target', -⟩ := again
    exact (dot'.begins _).meets target'
  have fork : Fork s [dot.occurrence, name.occurrence] (State.Meets [.equal])
      (first.yield ++ others.yield) (State.Meets [.dot]) :=
    ⟨counted, t, s', target, equals, passes, dotNext⟩
  -- A suffix that begins here is the access itself, and no suffix begins with the equals sign.
  cases first with
  | access dot' name' =>
    obtain ⟨fork₁, rfl⟩ := fork.same
    obtain ⟨fork₂, rfl⟩ := fork₁.same
    cases others with
    | noSuffix =>
      obtain ⟨-, u, u', here, isEqual, there, isDot⟩ := fork₂
      cases here.eq_of_word there
      obtain ⟨o, ahead, listed⟩ := isDot
      exact isEqual.avoids (by decide : ∀ kind ∈ _, kind ∉ [TokenKind.dot]) o ahead listed
    | someSuffix first others =>
      exact fork₂.ends ((first.starts _ rfl).append _) fun _ meets =>
        State.Meets.avoids meets (by decide)
  | emptyArguments left | arguments left =>
    exact fork.clash (dot.begins _) ((left.begins _).append _) (by decide)

/-! ## Expressions -/

theorem assignName_unique {target : Identifier} {equals : Terminal [.equal]}
    {value : Derivation .expression} (inValue : Unique value) :
    Unique (.assignName target equals value) := by
  intro d' s fork
  have tree := expression_agree fork
  cases d' with
  | assignName target' equals' value' =>
    obtain ⟨fork₁, rfl⟩ := fork.same
    obtain ⟨fork₂, rfl⟩ := fork₁.same
    rw [inValue value' _ fork₂]
  | assignProperty => cases tree
  | plain inner => exact absurd (.inl ⟨_, _, tree.symm⟩) inner.chain_not_assignment

theorem assignProperty_unique {object : Derivation .primary} {suffixes : Derivation .suffixes}
    {dot : Terminal [.dot]} {property : Identifier} {equals : Terminal [.equal]}
    {value : Derivation .expression} (inObject : Unique object) (inSuffixes : Unique suffixes)
    (inValue : Unique value) :
    Unique (.assignProperty object suffixes dot property equals value) := by
  intro d' s fork
  have tree := expression_agree fork
  cases d' with
  | assignName => cases tree
  | plain inner => exact absurd (.inr ⟨_, _, _, tree.symm⟩) inner.chain_not_assignment
  | assignProperty object' suffixes' dot' property' equals' value' =>
    obtain ⟨⟨s₁, fork₁⟩, rfl⟩ := fork.first inObject .trivial .trivial
    -- After the suffixes comes the access that the assignment takes for its target.
    obtain ⟨fork₂, rest₂⟩ := fork₁.split (before_target _ _ _) (before_target _ _ _)
    have same := inSuffixes AtTarget final_atTarget suffixes' s₁ fork₂
    subst same
    obtain ⟨s₂, fork₃⟩ := rest₂ rfl
    obtain ⟨fork₄, rfl⟩ := fork₃.same
    obtain ⟨fork₅, rfl⟩ := fork₄.same
    obtain ⟨fork₆, rfl⟩ := fork₅.same
    rw [inValue value' _ fork₆]

theorem plain_unique {inner : Derivation (.chain Tier.all)} (inInner : Unique inner) :
    Unique (.plain inner) := by
  intro d' s fork
  have tree := expression_agree fork
  cases d' with
  | assignName => exact absurd (.inl ⟨_, _, tree⟩) inner.chain_not_assignment
  | assignProperty => exact absurd (.inr ⟨_, _, _, tree⟩) inner.chain_not_assignment
  | plain inner' =>
    have fewer : ∀ s, Symbol.expression.After s → (Symbol.chain Tier.all).After s :=
      fun s (avoids : s.Avoids afterExpression) => avoids.mono (by decide)
    rw [inInner (by decide) inner' s (fork.weaken fewer fewer)]

theorem afterChain_tighter (tier : Tier) (tighter : List Tier) (s : State)
    (avoids : s.Avoids (afterChain (tier :: tighter))) : s.Avoids (afterChain tighter) :=
  (afterChain_cons avoids).2

theorem chain_unique {tier : Tier} {tighter : List Tier} {first : Derivation (.chain tighter)}
    {others : Derivation (.operations tier tighter)} (inFirst : Unique first)
    (inOthers : Unique others) : Unique (.chain first others) := by
  intro distinct d' s fork
  obtain ⟨fresh, distinctTighter⟩ := List.nodup_cons.1 distinct
  cases d' with
  | chain first' others' =>
    obtain ⟨⟨_, fork₁⟩, rfl⟩ := fork.first (inFirst distinctTighter)
      ((operations_before others fresh).weaken (afterChain_tighter tier tighter))
      ((operations_before others' fresh).weaken (afterChain_tighter tier tighter))
    rw [inOthers distinct others' _ fork₁]

theorem noOperation_unique {tier : Tier} {tighter : List Tier} :
    Unique (.noOperation : Derivation (.operations tier tighter)) := by
  intro _ d' s fork
  cases d' with
  | noOperation => rfl
  | operation operator =>
    exact (fork.ends (operator.begins _) fun _ avoids => (afterChain_cons avoids).1).elim

theorem operation_unique {tier : Tier} {tighter : List Tier} {operator : Terminal tier.operators}
    {right : Derivation (.chain tighter)} {others : Derivation (.operations tier tighter)}
    (inRight : Unique right) (inOthers : Unique others) :
    Unique (.operation operator right others) := by
  intro distinct d' s fork
  obtain ⟨fresh, distinctTighter⟩ := List.nodup_cons.1 distinct
  cases d' with
  | noOperation =>
    exact (fork.symm.ends (operator.begins _) fun _ avoids => (afterChain_cons avoids).1).elim
  | operation operator' right' others' =>
    obtain ⟨fork₁, rfl⟩ := fork.same
    obtain ⟨⟨_, fork₂⟩, rfl⟩ := fork₁.first (inRight distinctTighter)
      ((operations_before others fresh).weaken (afterChain_tighter tier tighter))
      ((operations_before others' fresh).weaken (afterChain_tighter tier tighter))
    rw [inOthers distinct others' _ fork₂]

theorem emptyArguments_unique {left : Terminal [.leftParen]} {right : Terminal [.rightParen]} :
    Unique (.emptyArguments left right) := by
  intro d' s fork
  cases d' with
  | emptyArguments left' right' =>
    obtain ⟨fork₁, rfl⟩ := fork.same
    obtain ⟨-, rfl⟩ := fork₁.same
    rfl
  | arguments left' first' =>
    -- both begin with a parenthesis, so that the token after it has to tell them apart
    obtain ⟨fork₁, -⟩ := fork.same
    exact (fork₁.clash (right.begins _) ((first'.starts _ rfl).append _) (by decide)).elim
  | access => exact (fork.apart rfl).elim

theorem arguments_unique {left : Terminal [.leftParen]} {first : Derivation .expression}
    {count : Nat} {more : Derivation (.arguments count)} {right : Terminal [.rightParen]}
    {bounded : count ≤ maxOthers} (inFirst : Unique first) (inMore : Unique more) :
    Unique (.arguments left first more right bounded) := by
  intro d' s fork
  cases d' with
  | emptyArguments left' right' =>
    obtain ⟨fork₁, -⟩ := fork.same
    exact (fork₁.clash ((first.starts _ rfl).append _) (right'.begins _) (by decide)).elim
  | access => exact (fork.apart rfl).elim
  | arguments left' first' more' right' bounded' =>
    obtain ⟨fork₁, rfl⟩ := fork.same
    obtain ⟨⟨_, fork₂⟩, rfl⟩ := fork₁.first inFirst
      ((arguments_before more).append (right.ends (by decide)))
      ((arguments_before more').append (right'.ends (by decide)))
    have closes : ∀ right : Terminal [.rightParen], Before (State.Avoids (.comma :: afterExpression))
        [right.occurrence] Symbol.suffix.After := fun right => right.ends (by decide)
    -- the numbers of arguments may differ as yet, so that `Fork.closed` does not apply
    obtain ⟨fork₃, rest₃⟩ := fork₂.split (closes right) (closes right')
    cases inMore _ more' _ fork₃
    obtain ⟨_, fork₄⟩ := rest₃ rfl
    obtain ⟨-, rfl⟩ := fork₄.same
    rfl

theorem argument_unique {comma : Terminal [.comma]} {value : Derivation .expression} {count : Nat}
    {more : Derivation (.arguments count)} (inValue : Unique value) (inMore : Unique more) :
    Unique (.argument comma value more) := by
  intro _ d' s fork
  cases d' with
  | noArgument =>
    exact (fork.symm.ends (comma.begins _)
      fun _ avoids => State.Avoids.mono avoids (by decide)).elim
  | argument comma' value' more' =>
    have fewer : ∀ s : State, s.Avoids (.comma :: afterExpression) → s.Avoids afterExpression :=
      fun _ avoids => avoids.mono fun _ => List.mem_cons_of_mem _
    obtain ⟨fork₁, rfl⟩ := fork.same
    obtain ⟨⟨_, fork₂⟩, rfl⟩ := fork₁.first inValue ((arguments_before more).weaken fewer)
      ((arguments_before more').weaken fewer)
    cases inMore _ more' _ fork₂
    rfl

theorem noArgument_unique : Unique .noArgument := by
  intro _ d' s fork
  cases d' with
  | noArgument => rfl
  | argument comma =>
    exact (fork.ends (comma.begins _) fun _ avoids => State.Avoids.mono avoids (by decide)).elim

theorem single_unique {inner : Derivation .unary} (inInner : Unique inner) : Unique (.single inner) := by
  intro _ d' s fork
  cases d' with
  | single inner' => rw [inInner inner' s fork]

theorem unary_unique {operator : Terminal [.bang, .minus]} {operand : Derivation .unary}
    (inOperand : Unique operand) : Unique (.unary operator operand) := by
  intro d' s fork
  cases d' with
  | unary operator' operand' =>
    obtain ⟨fork₁, rfl⟩ := fork.same
    rw [inOperand operand' _ fork₁]
  | call => exact (fork.apart rfl).elim

theorem call_unique {first : Derivation .primary} {suffixes : Derivation .suffixes}
    (inFirst : Unique first) (inSuffixes : Unique suffixes) : Unique (.call first suffixes) := by
  intro d' s fork
  cases d' with
  | unary => exact (fork.apart rfl).elim
  | call first' suffixes' =>
    obtain ⟨⟨_, fork₁⟩, rfl⟩ := fork.first inFirst .trivial .trivial
    rw [inSuffixes _ final_afterOperand suffixes' _ fork₁]

theorem access_unique {dot : Terminal [.dot]} {name : Identifier} : Unique (.access dot name) := by
  intro d' s fork
  cases d' with
  | access dot' name' =>
    obtain ⟨fork₁, rfl⟩ := fork.same
    rw [fork₁.same.2]
  | _ => exact (fork.apart rfl).elim

theorem noSuffix_unique : Unique .noSuffix := by
  intro Stop final d' s fork
  cases d' with
  | noSuffix => rfl
  | someSuffix first' others' => exact (final s first' others' fork).elim

theorem someSuffix_unique {first : Derivation .suffix} {others : Derivation .suffixes}
    (inFirst : Unique first) (inOthers : Unique others) : Unique (.someSuffix first others) := by
  intro Stop final d' s fork
  cases d' with
  | noSuffix => exact (final s first others fork.symm).elim
  | someSuffix first' others' =>
    obtain ⟨⟨_, fork₁⟩, rfl⟩ := fork.first inFirst .trivial .trivial
    rw [inOthers Stop final others' _ fork₁]

theorem constant_unique {token : Terminal [.kwTrue, .kwFalse, .kwNil]} : Unique (.constant token) := by
  intro d' s fork
  cases d' with
  | constant token' => rw [fork.same.2]
  | _ => exact (fork.apart rfl).elim

theorem literal_unique {token : Terminal [.number, .string]} : Unique (.literal token) := by
  intro d' s fork
  cases d' with
  | literal token' => rw [fork.same.2]
  | _ => exact (fork.apart rfl).elim

theorem named_unique {token : Identifier} : Unique (.named token) := by
  intro d' s fork
  cases d' with
  | named token' => rw [fork.same.2]
  | _ => exact (fork.apart rfl).elim

theorem this_unique {keyword : Terminal [.kwThis]} : Unique (.this keyword) := by
  intro d' s fork
  cases d' with
  | this keyword' => rw [fork.same.2]
  | _ => exact (fork.apart rfl).elim

theorem super_unique {keyword : Terminal [.kwSuper]} {dot : Terminal [.dot]} {method : Identifier} :
    Unique (.super keyword dot method) := by
  intro d' s fork
  cases d' with
  | super keyword' dot' method' =>
    obtain ⟨fork₁, rfl⟩ := fork.same
    obtain ⟨fork₂, rfl⟩ := fork₁.same
    rw [fork₂.same.2]
  | _ => exact (fork.apart rfl).elim

theorem grouping_unique {left : Terminal [.leftParen]} {inner : Derivation .expression}
    {right : Terminal [.rightParen]} (inInner : Unique inner) :
    Unique (.grouping left inner right) := by
  intro d' s fork
  cases d' with
  | grouping left' inner' right' =>
    obtain ⟨rfl, rfl, rfl⟩ :=
      fork.enclosed inInner (right.ends (by decide)) (right'.ends (by decide))
    rfl
  | _ => exact (fork.apart rfl).elim

/-! ## Optional parts -/

theorem noExpression_unique : Unique .noExpression := by
  intro d' s fork
  cases d' with
  | noExpression => rfl
  | someExpression value =>
    exact (fork.ends (value.starts _ rfl)
      fun _ avoids => State.Avoids.mono avoids (by decide)).elim

theorem someExpression_unique {value : Derivation .expression} (inValue : Unique value) :
    Unique (.someExpression value) := by
  intro d' s fork
  cases d' with
  | noExpression =>
    exact (fork.symm.ends (value.starts _ rfl)
      fun _ avoids => State.Avoids.mono avoids (by decide)).elim
  | someExpression value' =>
    have fewer : ∀ s, Symbol.optional.After s → Symbol.expression.After s :=
      fun _ avoids => State.Avoids.mono avoids (by decide)
    rw [inValue value' s (fork.weaken fewer fewer)]

theorem noInitializer_unique : Unique .noInitializer := by
  intro d' s fork
  cases d' with
  | noInitializer => rfl
  | someInitializer equals =>
    exact (fork.ends (equals.begins _) fun _ avoids => State.Avoids.mono avoids (by decide)).elim

theorem someInitializer_unique {equals : Terminal [.equal]} {value : Derivation .expression}
    (inValue : Unique value) : Unique (.someInitializer equals value) := by
  intro d' s fork
  cases d' with
  | noInitializer =>
    exact (fork.symm.ends (equals.begins _)
      fun _ avoids => State.Avoids.mono avoids (by decide)).elim
  | someInitializer equals' value' =>
    obtain ⟨fork₁, rfl⟩ := fork.same
    rw [inValue value' _ fork₁]

/-! ## Parts without derivations of their own -/

theorem otherParameters_unique {others others' : List (Terminal [.comma] × Identifier)}
    {right right' : Terminal [.rightParen]} {w w' : List Occurrence} {P P' : State → Prop} {s : State}
    (fork : Fork s
      ((others.flatMap fun other => [other.1.occurrence, other.2.occurrence]) ++ right.occurrence :: w)
      P
      ((others'.flatMap fun other => [other.1.occurrence, other.2.occurrence]) ++
        right'.occurrence :: w') P') :
    others = others' ∧ ∃ s', Fork s' (right.occurrence :: w) P (right'.occurrence :: w') P' := by
  induction others generalizing others' s with
  | nil =>
    cases others' with
    | nil => exact ⟨rfl, s, fork⟩
    | cons other' rest' =>
      -- A comma against the parenthesis: the readings part at their first token.
      exact (fork.clash (right.begins _) (other'.1.begins _) (by decide)).elim
  | cons other rest inductionHypothesis =>
    cases others' with
    | nil =>
      exact (fork.clash (other.1.begins _) (right'.begins _) (by decide)).elim
    | cons other' rest' =>
      obtain ⟨comma, name⟩ := other
      obtain ⟨comma', name'⟩ := other'
      obtain ⟨fork₁, rfl⟩ := fork.same
      obtain ⟨fork₂, rfl⟩ := fork₁.same
      obtain ⟨rfl, following⟩ := inductionHypothesis fork₂
      exact ⟨rfl, following⟩

theorem parameters_unique {parameters parameters' : Option Parameters}
    {right right' : Terminal [.rightParen]} {w w' : List Occurrence} {P P' : State → Prop} {s : State}
    (fork : Fork s (parameters.elim [] Parameters.yield ++ right.occurrence :: w) P
      (parameters'.elim [] Parameters.yield ++ right'.occurrence :: w') P') :
    parameters = parameters' ∧
      ∃ s', Fork s' (right.occurrence :: w) P (right'.occurrence :: w') P' := by
  cases parameters with
  | none =>
    cases parameters' with
    | none => exact ⟨rfl, s, fork⟩
    | some p' =>
      exact (fork.clash (right.begins _) (p'.first.begins _) (by decide)).elim
  | some p =>
    cases parameters' with
    | none =>
      exact (fork.clash (p.first.begins _) (right'.begins _) (by decide)).elim
    | some p' =>
      obtain ⟨first, others, few⟩ := p
      obtain ⟨first', others', few'⟩ := p'
      obtain ⟨fork₁, rfl⟩ := fork.same
      obtain ⟨rfl, following⟩ := otherParameters_unique fork₁
      exact ⟨rfl, following⟩

theorem superclass_unique {parent parent' : Option Heritage} {left left' : Terminal [.leftBrace]}
    {w w' : List Occurrence} {P P' : State → Prop} {s : State}
    (fork : Fork s (parent.elim [] Heritage.yield ++ left.occurrence :: w) P
      (parent'.elim [] Heritage.yield ++ left'.occurrence :: w') P') :
    parent = parent' ∧ ∃ s', Fork s' (left.occurrence :: w) P (left'.occurrence :: w') P' := by
  cases parent with
  | none =>
    cases parent' with
    | none => exact ⟨rfl, s, fork⟩
    | some h' =>
      exact (fork.clash (left.begins _) (h'.1.begins _) (by decide)).elim
  | some h =>
    cases parent' with
    | none =>
      exact (fork.clash (h.1.begins _) (left'.begins _) (by decide)).elim
    | some h' =>
      obtain ⟨less, name⟩ := h
      obtain ⟨less', name'⟩ := h'
      obtain ⟨fork₁, rfl⟩ := fork.same
      obtain ⟨fork₂, rfl⟩ := fork₁.same
      exact ⟨rfl, _, fork₂⟩

/-! ## Statements -/

theorem expressionStatement_unique {value : Derivation .expression} {semicolon : Terminal [.semicolon]}
    (inValue : Unique value) : Unique (.expressionStatement value semicolon) := by
  intro d' s fork
  cases d' with
  | expressionStatement value' semicolon' =>
    obtain ⟨-, rfl, rfl⟩ :=
      fork.closed inValue (semicolon.ends (by decide)) (semicolon'.ends (by decide))
    rfl

theorem varDeclaration_unique {name : Identifier} {initializer : Derivation .initializer}
    {semicolon : Terminal [.semicolon]} (inInitializer : Unique initializer) :
    Unique (.varDeclaration name initializer semicolon) := by
  intro d' s fork
  cases d' with
  | varDeclaration name' initializer' semicolon' =>
    obtain ⟨rfl, rfl, rfl⟩ :=
      fork.enclosed inInitializer (semicolon.ends (by decide)) (semicolon'.ends (by decide))
    rfl

theorem noClause_unique {semicolon : Terminal [.semicolon]} : Unique (.noClause semicolon) := by
  intro d' s fork
  cases d' with
  | noClause semicolon' => rw [fork.same.2]
  | _ => exact (fork.apart rfl).elim

theorem varClause_unique {keyword : Terminal [.kwVar]} {declaration : Derivation .varDeclaration}
    (inDeclaration : Unique declaration) : Unique (.varClause keyword declaration) := by
  intro d' s fork
  cases d' with
  | varClause keyword' declaration' =>
    obtain ⟨fork₁, rfl⟩ := fork.same
    rw [inDeclaration declaration' _ fork₁]
  | _ => exact (fork.apart rfl).elim

theorem expressionClause_unique {statement : Derivation .expressionStatement}
    (inStatement : Unique statement) : Unique (.expressionClause statement) := by
  intro d' s fork
  cases d' with
  | expressionClause statement' => rw [inStatement statement' s fork]
  | _ => exact (fork.apart rfl).elim

theorem expressionOnly_unique {statement : Derivation .expressionStatement}
    (inStatement : Unique statement) : Unique (.expressionOnly statement) := by
  intro _ d' s fork
  cases d' with
  | expressionOnly statement' =>
    have always : ∀ s, AfterStatement false s → Symbol.expressionStatement.After s :=
      fun _ _ => trivial
    rw [inStatement statement' s (fork.weaken always always)]
  | _ => exact (fork.apart rfl).elim

theorem print_unique {keyword : Terminal [.kwPrint]} {value : Derivation .expression}
    {semicolon : Terminal [.semicolon]} (inValue : Unique value) :
    Unique (.print keyword value semicolon) := by
  intro _ d' s fork
  cases d' with
  | print keyword' value' semicolon' =>
    obtain ⟨rfl, rfl, rfl⟩ :=
      fork.enclosed inValue (semicolon.ends (by decide)) (semicolon'.ends (by decide))
    rfl
  | _ => exact (fork.apart rfl).elim

theorem return_unique {keyword : Terminal [.kwReturn]} {value : Derivation .optional}
    {semicolon : Terminal [.semicolon]} (inValue : Unique value) :
    Unique (.return keyword value semicolon) := by
  intro _ d' s fork
  cases d' with
  | «return» keyword' value' semicolon' =>
    obtain ⟨rfl, rfl, rfl⟩ :=
      fork.enclosed inValue (semicolon.ends (by decide)) (semicolon'.ends (by decide))
    rfl
  | _ => exact (fork.apart rfl).elim

theorem block_unique {left : Terminal [.leftBrace]} {body : Derivation .declarations}
    {right : Terminal [.rightBrace]} (inBody : Unique body) : Unique (.block left body right) := by
  intro _ d' s fork
  cases d' with
  | block left' body' right' =>
    obtain ⟨rfl, rfl, rfl⟩ :=
      fork.enclosed inBody (right.ends (by decide)) (right'.ends (by decide))
    rfl
  | _ => exact (fork.apart rfl).elim

/-- If an `else` follows the branch of one `if`, then it does so after the branch of the other. -/
theorem dangling_clash {dangling : Bool} {thenBranch : Derivation (.statement dangling)}
    {thenBranch' : Derivation (.statement false)} {otherwise : Terminal [.kwElse]} {s : State}
    {w : List Occurrence} {P : State → Prop}
    (unique : Fork s thenBranch.yield (AfterStatement dangling) thenBranch'.yield
      (AfterStatement false) → (⟨dangling, thenBranch⟩ : Σ dangling, Derivation (.statement dangling)) =
        ⟨false, thenBranch'⟩)
    (fork : Fork s thenBranch.yield (AfterStatement true)
      (thenBranch'.yield ++ otherwise.occurrence :: w) P) : False := by
  obtain ⟨counted, t, t', passes, noElse, passes', -⟩ := fork
  obtain ⟨u, here, there⟩ := passes'.split
  cases unique ⟨counted, t, u, passes, fun _ => noElse rfl, here, Bool.noConfusion⟩
  cases passes.eq_of_word here
  obtain ⟨o, ahead, isElse⟩ := (otherwise.begins w).meets there
  exact noElse rfl o ahead isElse

theorem while_unique {keyword : Terminal [.kwWhile]} {left : Terminal [.leftParen]}
    {condition : Derivation .expression} {right : Terminal [.rightParen]} {dangling : Bool}
    {body : Derivation (.statement dangling)} (inCondition : Unique condition)
    (inBody : Unique body) : Unique (.while keyword left condition right body) := by
  intro _ d' s fork
  cases d' with
  | «while» keyword' left' condition' right' body' =>
    obtain ⟨fork₁, rfl⟩ := fork.same
    obtain ⟨fork₂, rfl⟩ := fork₁.same
    obtain ⟨⟨_, fork₃⟩, rfl, rfl⟩ :=
      fork₂.closed inCondition (right.ends (by decide)) (right'.ends (by decide))
    cases inBody _ body' _ fork₃
    rfl
  | _ => exact (fork.apart rfl).elim

theorem for_unique {keyword : Terminal [.kwFor]} {left : Terminal [.leftParen]}
    {initializer : Derivation .forInitializer} {condition : Derivation .optional}
    {semicolon : Terminal [.semicolon]} {increment : Derivation .optional}
    {right : Terminal [.rightParen]} {dangling : Bool} {body : Derivation (.statement dangling)}
    (inInitializer : Unique initializer) (inCondition : Unique condition)
    (inIncrement : Unique increment) (inBody : Unique body) :
    Unique (.for keyword left initializer condition semicolon increment right body) := by
  intro _ d' s fork
  cases d' with
  | «for» keyword' left' initializer' condition' semicolon' increment' right' body' =>
    obtain ⟨fork₁, rfl⟩ := fork.same
    obtain ⟨fork₂, rfl⟩ := fork₁.same
    obtain ⟨⟨_, fork₃⟩, rfl⟩ := fork₂.first inInitializer .trivial .trivial
    -- A clause may be missing, so the token that ends it tells the readings apart.
    obtain ⟨⟨_, fork₄⟩, rfl, rfl⟩ :=
      fork₃.closed inCondition (semicolon.ends (by decide)) (semicolon'.ends (by decide))
    obtain ⟨⟨_, fork₅⟩, rfl, rfl⟩ :=
      fork₄.closed inIncrement (right.ends (by decide)) (right'.ends (by decide))
    cases inBody _ body' _ fork₅
    rfl
  | _ => exact (fork.apart rfl).elim

/-- The part that both forms of `if` have in common, up to the first branch. -/
theorem condition_unique {keyword keyword' : Terminal [.kwIf]} {left left' : Terminal [.leftParen]}
    {condition condition' : Derivation .expression} {right right' : Terminal [.rightParen]}
    {s : State} {w w' : List Occurrence} {P P' : State → Prop} (inCondition : Unique condition)
    (fork : Fork s (keyword.occurrence :: left.occurrence ::
        (condition.yield ++ right.occurrence :: w)) P
      (keyword'.occurrence :: left'.occurrence ::
        (condition'.yield ++ right'.occurrence :: w')) P') :
    (∃ s', Fork s' w P w' P') ∧ keyword = keyword' ∧ left = left' ∧ condition = condition' ∧
      right = right' := by
  obtain ⟨fork₁, rfl⟩ := fork.same
  obtain ⟨fork₂, rfl⟩ := fork₁.same
  obtain ⟨rest, rfl, rfl⟩ :=
    fork₂.closed inCondition (right.ends (by decide)) (right'.ends (by decide))
  exact ⟨rest, rfl, rfl, rfl, rfl⟩

theorem ifThen_unique {keyword : Terminal [.kwIf]} {left : Terminal [.leftParen]}
    {condition : Derivation .expression} {right : Terminal [.rightParen]} {dangling : Bool}
    {thenBranch : Derivation (.statement dangling)} (inCondition : Unique condition)
    (inThen : Unique thenBranch) : Unique (.ifThen keyword left condition right thenBranch) := by
  intro _ d' s fork
  cases d' with
  | ifThen keyword' left' condition' right' thenBranch' =>
    obtain ⟨⟨_, fork₁⟩, rfl, rfl, rfl, rfl⟩ := condition_unique inCondition fork
    cases inThen _ thenBranch' _ (fork₁.weaken (fun _ after _ => after rfl) fun _ after _ => after rfl)
    rfl
  | ifElse keyword' left' condition' right' thenBranch' otherwise' elseBranch' =>
    obtain ⟨⟨_, fork₁⟩, -⟩ := condition_unique inCondition fork
    exact (dangling_clash (inThen _ thenBranch' _) fork₁).elim
  | _ => exact (fork.apart rfl).elim

theorem ifElse_unique {keyword : Terminal [.kwIf]} {left : Terminal [.leftParen]}
    {condition : Derivation .expression} {right : Terminal [.rightParen]}
    {thenBranch : Derivation (.statement false)} {otherwise : Terminal [.kwElse]} {dangling : Bool}
    {elseBranch : Derivation (.statement dangling)} (inCondition : Unique condition)
    (inThen : Unique thenBranch) (inElse : Unique elseBranch) :
    Unique (.ifElse keyword left condition right thenBranch otherwise elseBranch) := by
  intro _ d' s fork
  cases d' with
  | ifThen keyword' left' condition' right' thenBranch' =>
    obtain ⟨⟨_, fork₁⟩, -⟩ := condition_unique inCondition fork
    exact (dangling_clash (fun fork => (inThen _ thenBranch' _ fork.symm).symm) fork₁.symm).elim
  | ifElse keyword' left' condition' right' thenBranch' otherwise' elseBranch' =>
    obtain ⟨⟨_, fork₁⟩, rfl, rfl, rfl, rfl⟩ := condition_unique inCondition fork
    -- a branch with no `if` left open may be followed by anything
    have anywhere : ∀ {w P}, Before (AfterStatement false) w P := fun _ _ _ _ => Bool.noConfusion
    obtain ⟨fork₂, rest₂⟩ := fork₁.split anywhere anywhere
    cases inThen _ thenBranch' _ fork₂
    obtain ⟨_, fork₃⟩ := rest₂ rfl
    obtain ⟨fork₄, rfl⟩ := fork₃.same
    cases inElse _ elseBranch' _ fork₄
    rfl
  | _ => exact (fork.apart rfl).elim

/-! ## Declarations -/

theorem function_unique {name : Identifier} {leftParen : Terminal [.leftParen]}
    {parameters : Option Parameters} {rightParen : Terminal [.rightParen]}
    {leftBrace : Terminal [.leftBrace]} {body : Derivation .declarations}
    {rightBrace : Terminal [.rightBrace]} (inBody : Unique body) :
    Unique (.function name leftParen parameters rightParen leftBrace body rightBrace) := by
  intro d' s fork
  cases d' with
  | function name' leftParen' parameters' rightParen' leftBrace' body' rightBrace' =>
    obtain ⟨fork₁, rfl⟩ := fork.same
    obtain ⟨fork₂, rfl⟩ := fork₁.same
    obtain ⟨rfl, _, fork₃⟩ := parameters_unique fork₂
    obtain ⟨fork₄, rfl⟩ := fork₃.same
    obtain ⟨fork₅, rfl⟩ := fork₄.same
    obtain ⟨-, rfl, rfl⟩ :=
      fork₅.closed inBody (rightBrace.ends (by decide)) (rightBrace'.ends (by decide))
    rfl

theorem class_unique {keyword : Terminal [.kwClass]} {name : Identifier}
    {superclass : Option Heritage} {left : Terminal [.leftBrace]} {methods : Derivation .methods}
    {right : Terminal [.rightBrace]} (inMethods : Unique methods) :
    Unique (.class keyword name superclass left methods right) := by
  intro d' s fork
  cases d' with
  | «class» keyword' name' superclass' left' methods' right' =>
    obtain ⟨fork₁, rfl⟩ := fork.same
    obtain ⟨fork₂, rfl⟩ := fork₁.same
    obtain ⟨rfl, _, fork₃⟩ := superclass_unique fork₂
    obtain ⟨fork₄, rfl⟩ := fork₃.same
    obtain ⟨-, rfl, rfl⟩ :=
      fork₄.closed inMethods (right.ends (by decide)) (right'.ends (by decide))
    rfl
  | _ => exact (fork.apart rfl).elim

theorem fun_unique {keyword : Terminal [.kwFun]} {declaration : Derivation .function}
    (inDeclaration : Unique declaration) : Unique (.fun keyword declaration) := by
  intro d' s fork
  cases d' with
  | «fun» keyword' declaration' =>
    obtain ⟨fork₁, rfl⟩ := fork.same
    have always : ∀ s, Symbol.declaration.After s → Symbol.function.After s := fun _ _ => trivial
    rw [inDeclaration declaration' _ (fork₁.weaken always always)]
  | _ => exact (fork.apart rfl).elim

theorem var_unique {keyword : Terminal [.kwVar]} {declaration : Derivation .varDeclaration}
    (inDeclaration : Unique declaration) : Unique (.var keyword declaration) := by
  intro d' s fork
  cases d' with
  | var keyword' declaration' =>
    obtain ⟨fork₁, rfl⟩ := fork.same
    have always : ∀ s, Symbol.declaration.After s → Symbol.varDeclaration.After s :=
      fun _ _ => trivial
    rw [inDeclaration declaration' _ (fork₁.weaken always always)]
  | _ => exact (fork.apart rfl).elim

theorem statementOnly_unique {dangling : Bool} {statement : Derivation (.statement dangling)}
    (inStatement : Unique statement) : Unique (.statementOnly statement) := by
  intro d' s fork
  cases d' with
  | statementOnly statement' =>
    -- no `else` follows a declaration, whether or not its statement leaves an `if` open
    cases inStatement _ statement' _ (fork.weaken (fun _ avoids _ => avoids) fun _ avoids _ => avoids)
    rfl
  | _ => exact (fork.apart rfl).elim

theorem noMethod_unique : Unique .noMethod := by
  intro d' s fork
  cases d' with
  | noMethod => rfl
  | someMethod first =>
    exact (fork.ends ((first.starts _ rfl).append _) fun _ avoids => avoids).elim

theorem someMethod_unique {first : Derivation .function} {others : Derivation .methods}
    (inFirst : Unique first) (inOthers : Unique others) : Unique (.someMethod first others) := by
  intro d' s fork
  cases d' with
  | noMethod =>
    exact (fork.symm.ends ((first.starts _ rfl).append _) fun _ avoids => avoids).elim
  | someMethod first' others' =>
    obtain ⟨⟨_, fork₁⟩, rfl⟩ := fork.first inFirst .trivial .trivial
    rw [inOthers others' _ fork₁]

theorem noDeclaration_unique : Unique .noDeclaration := by
  intro d' s fork
  cases d' with
  | noDeclaration => rfl
  | declarations first =>
    exact (fork.ends ((first.starts _ rfl).append _)
      fun _ avoids => State.Avoids.mono avoids (by decide)).elim

theorem declarations_unique {first : Derivation .declaration} {others : Derivation .declarations}
    (inFirst : Unique first) (inOthers : Unique others) :
    Unique (.declarations first others) := by
  intro d' s fork
  cases d' with
  | noDeclaration =>
    exact (fork.symm.ends ((first.starts _ rfl).append _)
      fun _ avoids => State.Avoids.mono avoids (by decide)).elim
  | declarations first' others' =>
    have noElse : ∀ s, Symbol.declarations.After s → s.Avoids [.kwElse] :=
      fun _ avoids => State.Avoids.mono avoids (by decide)
    obtain ⟨⟨_, fork₁⟩, rfl⟩ := fork.first inFirst ((declarations_before others).weaken noElse)
      ((declarations_before others').weaken noElse)
    rw [inOthers others' _ fork₁]

/-! ## Every derivation -/

theorem Derivation.unique {symbol : Symbol} (d : Derivation symbol) : Unique d := by
  induction d with
  | assignName target equals value inValue => exact assignName_unique inValue
  | assignProperty object suffixes dot property equals value inObject inSuffixes inValue =>
    exact assignProperty_unique inObject inSuffixes inValue
  | plain inner inInner => exact plain_unique inInner
  | single inner inInner => exact single_unique inInner
  | chain first others inFirst inOthers => exact chain_unique inFirst inOthers
  | noOperation => exact noOperation_unique
  | operation operator right others inRight inOthers => exact operation_unique inRight inOthers
  | unary operator operand inOperand => exact unary_unique inOperand
  | call first suffixes inFirst inSuffixes => exact call_unique inFirst inSuffixes
  | emptyArguments left right => exact emptyArguments_unique
  | arguments left first more right bounded inFirst inMore => exact arguments_unique inFirst inMore
  | access dot name => exact access_unique
  | noSuffix => exact noSuffix_unique
  | someSuffix first others inFirst inOthers => exact someSuffix_unique inFirst inOthers
  | noArgument => exact noArgument_unique
  | argument comma value more inValue inMore => exact argument_unique inValue inMore
  | constant token => exact constant_unique
  | literal token => exact literal_unique
  | named token => exact named_unique
  | this keyword => exact this_unique
  | super keyword dot method => exact super_unique
  | grouping left inner right inInner => exact grouping_unique inInner
  | noExpression => exact noExpression_unique
  | someExpression value inValue => exact someExpression_unique inValue
  | noInitializer => exact noInitializer_unique
  | someInitializer equals value inValue => exact someInitializer_unique inValue
  | expressionStatement value semicolon inValue => exact expressionStatement_unique inValue
  | varDeclaration name initializer semicolon inInitializer =>
    exact varDeclaration_unique inInitializer
  | noClause semicolon => exact noClause_unique
  | varClause keyword declaration inDeclaration => exact varClause_unique inDeclaration
  | expressionClause statement inStatement => exact expressionClause_unique inStatement
  | expressionOnly statement inStatement => exact expressionOnly_unique inStatement
  | print keyword value semicolon inValue => exact print_unique inValue
  | «return» keyword value semicolon inValue => exact return_unique inValue
  | block left body right inBody => exact block_unique inBody
  | «while» keyword left condition right body inCondition inBody =>
    exact while_unique inCondition inBody
  | «for» keyword left initializer condition semicolon increment right body inInitializer
      inCondition inIncrement inBody =>
    exact for_unique inInitializer inCondition inIncrement inBody
  | ifThen keyword left condition right thenBranch inCondition inThen =>
    exact ifThen_unique inCondition inThen
  | ifElse keyword left condition right thenBranch otherwise elseBranch inCondition inThen inElse =>
    exact ifElse_unique inCondition inThen inElse
  | function name leftParen parameters rightParen leftBrace body rightBrace inBody =>
    exact function_unique inBody
  | noMethod => exact noMethod_unique
  | someMethod first others inFirst inOthers => exact someMethod_unique inFirst inOthers
  | «class» keyword name superclass left methods right inMethods => exact class_unique inMethods
  | «fun» keyword declaration inDeclaration => exact fun_unique inDeclaration
  | var keyword declaration inDeclaration => exact var_unique inDeclaration
  | statementOnly statement inStatement => exact statementOnly_unique inStatement
  | noDeclaration => exact noDeclaration_unique
  | declarations first others inFirst inOthers => exact declarations_unique inFirst inOthers

end Lox.Grammar
