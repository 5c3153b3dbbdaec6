import Lox.Proofs.Grammar.PredictedExpressions

/-!
# Predicted programs

The parsers of statements, declarations and programs follow the rules of the relaxed grammar. A word may
go on with an `else` only if that belongs to the statement before.
-/

namespace Lox.Grammar

variable {α : Type} {K : Language TokenKind}

/-! ## Steps up to an end -/

namespace Loops

variable {r : Rule}

theorem unlessClosed {p : Parser α} (predicts : Predicts p r K) (count : Nat) :
    Loops (fun k => k != .rightBrace && k != .endOfInput) (unlessClosed p count) r K := by
  constructor
  · intro s proper stop
    by_cases closed : s.nextKind = .rightBrace
    · obtain ⟨t, ahead, listed, -⟩ :=
        State.exists_of_nextKind (by decide) (List.mem_singleton.2 closed)
      exact unlessClosed_stops ⟨t, ahead, listed⟩
    · have ended : s.nextKind = .endOfInput := by simpa [closed] using stop
      have isEnd : atEnd s = .ok true s := by
        rw [atEnd, show s.ahead = [] from proper.ended ended]
        rfl
      rw [Grammar.unlessClosed, bind_ok (next_avoids (State.avoids_of_nextKind (by simpa using closed))),
        bind_ok isEnd]
      rfl
  -- With another token next, a round is the part itself.
  · intro s proper goes
    obtain ⟨notClosed, notEnded⟩ : s.nextKind ≠ .rightBrace ∧ s.nextKind ≠ .endOfInput := by
      simpa using goes
    obtain ⟨t, ahead, listed, -⟩ :=
      State.exists_of_nextKind (by simpa using notEnded.symm) (List.mem_singleton_self s.nextKind)
    have step : StepsWith (Grammar.unlessClosed p) p [s.nextKind] :=
      unlessClosed_steps (by simpa using notClosed)
    rw [step count s ⟨t, ahead, listed⟩]
    exact ⟨predicts.map s proper, fun s' => Yielding.bind (fun a => .some a) s s'⟩

theorem unlessEnded {p : Parser α} (predicts : Predicts p r K) (count : Nat) :
    Loops (fun k => k != .endOfInput) (unlessEnded p count) r K := by
  constructor
  · intro s proper stop
    exact unlessEnded_stops (proper.ended (by simpa using stop))
  · intro s proper goes
    have notEnded : s.nextKind ≠ .endOfInput := by simpa using goes
    obtain ⟨t, ahead, listed, -⟩ :=
      State.exists_of_nextKind (by simpa using notEnded.symm) (List.mem_singleton_self s.nextKind)
    have step : StepsWith (Grammar.unlessEnded p) p [s.nextKind] := unlessEnded_steps
    rw [step count s ⟨t, ahead, listed⟩]
    exact ⟨predicts.map s proper, fun s' => Yielding.bind (fun a => .some a) s s'⟩

end Loops

/-! ## Statements -/

/-- A word goes on with an `else` only if it is that of the statement before. -/
def ElseClosed (K : Language TokenKind) : Prop :=
  ∀ v, .kwElse :: v ∈ K → .kwElse :: v ∈ Rule.alternative.language * K

theorem Avoids.elseClosed (avoids : Avoids K [.kwElse]) : ElseClosed K :=
  fun v member => absurd member (avoids _ List.mem_cons_self v)

theorem ElseClosed.alternative (closed : ElseClosed K) :
    ElseClosed ((Rule.option .alternative).language * K) := by
  intro v member
  have kept : ∀ w ∈ K, w ∈ (Rule.option .alternative).language * K := fun w here => by
    rw [Rule.language_option, add_mul, one_mul]
    exact .inr here
  have here : .kwElse :: v ∈ Rule.alternative.language * K := by
    rw [Rule.language_option, add_mul, one_mul] at member
    exact member.elim id (closed v)
  obtain ⟨first, word, rest, after, same⟩ := Language.mem_mul.1 here
  rw [← same]
  exact Language.append_mem_mul word (kept rest after)

abbrev PredictsStatement (p : Parser Stmt) : Prop :=
  ∀ K, ElseClosed K → Predicts p (.symbol .statement) K

abbrev PredictsDeclaration (p : Parser (Option Stmt)) : Prop :=
  ∀ K, Avoids K [.kwElse] → Predicts p (.symbol .declaration) K

section Statements

variable {expression : Parser Expr} {statement : Parser Stmt} {declaration : Parser (Option Stmt)}

/-- Only a closing brace stops a repetition that one ends. -/
theorem rightBrace_only {kind : TokenKind} (goes : (kind != .rightBrace && kind != .endOfInput) = true)
    (v : List TokenKind) : kind :: v ∉ (Rule.token [.rightBrace]).language * K := by
  have other : kind ≠ .rightBrace := by
    rintro rfl
    cases goes
  have avoids : Avoids ((Rule.token [.rightBrace]).language * K) [kind] :=
    Rule.solid_avoids rfl (by simpa [Rule.firsts] using other)
  exact avoids kind List.mem_cons_self v

theorem block_predicts (predicts : PredictsDeclaration declaration) :
    Predicts (block declaration) .block K := by
  have loops : ∀ count, Loops (fun k => k != .rightBrace && k != .endOfInput)
      (unlessClosed declaration count) (.symbol .declaration)
      ((Rule.star (.symbol .declaration)).language * ((Rule.token [.rightBrace]).language * K)) :=
    .unlessClosed (predicts _ (Rule.avoids (by decide) fun _ => Rule.solid_avoids rfl (by decide)))
  have found := Predicts.many loops (by decide) rfl fun kind goes => rightBrace_only goes
  exact found.bind (fun _ => (Predicts.skip (by decide) rfl).finish fun _ => .pure) rfl

theorem function_predicts (form : FunctionForm) (predicts : PredictsDeclaration declaration) :
    Predicts (function form declaration) .function K := by
  have rest : ∀ (name : Occurrence) (parameters : List Occurrence), Predicts (do
      skip .rightParen .noParametersEnd
      skip .leftBrace (.noFunctionBody form)
      let body ← block declaration
      return Function.mk name.token (parameters.map Occurrence.token) body)
      (.seq (.token [.rightParen]) (.seq (.token [.leftBrace]) .block)) K := fun name parameters =>
    (Predicts.skip (by decide) rfl).bind (fun _ => (Predicts.skip (by decide) rfl).bind
      (fun _ => (block_predicts predicts).finish fun _ => .pure) rfl) rfl
  have item : ∀ K, Predicts (expect .identifier .noParameterName) (.token [.identifier]) K :=
    fun K => .expect (by decide) rfl
  refine (Predicts.expect (by decide) rfl).bind (fun name => ?_) rfl
  refine (Predicts.skip (by decide) rfl).bind (fun _ => ?_) rfl
  refine .before (by decide) (.andThen (fun _ => .pure) (rest name) rfl) ?_ (by decide) rfl
    (by simp [Rule.firsts, Rule.nullable]) rfl
  exact (separated_predicts rfl (item _) rfl (Rule.solid_avoids rfl (by decide))).bind (rest name) rfl

theorem superclass_predicts {rest : Option Occurrence → Parser α} {r : Rule}
    (predicts : ∀ found, Predicts (rest found) r K) (productive : r.productive Nonterminal.all = true)
    (other : .less ∉ r.firsts) (solid : r.nullable = false) :
    Predicts (superclass >>= rest)
      (.seq (.option (.seq (.token [.less]) (.token [.identifier]))) r) K := by
  have same : (superclass >>= rest) = (accept .less >>= fun found =>
      (if found then some <$> expect .identifier .noSuperclassName else pure none) >>= rest) := by
    rw [superclass, bind_assoc]
    rfl
  rw [same]
  refine .optional (by decide) (Predicts.bind (Predicts.expect (by decide) rfl).map predicts productive)
    (by simpa [Rule.productive] using productive) (.andThen (fun _ => .pure) predicts productive) ?_
  have avoids : Avoids (r.language * K) [.less] := Rule.solid_avoids solid (by simpa using other)
  exact fun v member => absurd member (avoids _ List.mem_cons_self v)

theorem classDeclaration_predicts (predicts : PredictsDeclaration declaration) :
    Predicts (classDeclaration declaration) .classBody K := by
  have loops : ∀ count, Loops (fun k => k != .rightBrace && k != .endOfInput)
      (unlessClosed (function .method declaration) count) .function
      ((Rule.star .function).language * ((Rule.token [.rightBrace]).language * K)) :=
    .unlessClosed (function_predicts .method predicts)
  have methods := Predicts.many loops (by decide) rfl fun kind goes => rightBrace_only goes
  refine (Predicts.expect (by decide) rfl).bind (fun name => ?_) rfl
  refine superclass_predicts (fun parent => ?_) rfl (by decide) rfl
  refine (Predicts.skip (by decide) rfl).bind (fun _ => ?_) rfl
  exact methods.bind (fun _ => (Predicts.skip (by decide) rfl).finish fun _ => .pure) rfl

theorem varDeclaration_predicts (predicts : PredictsExpression expression) :
    Predicts (varDeclaration expression) .variableBody K := by
  have rest : ∀ (name : Occurrence) (initializer : Option Expr), Predicts (do
      skip .semicolon .noVariableEnd
      return Stmt.var name.token initializer) (.token [.semicolon]) K := fun _ _ =>
    (Predicts.skip (by decide) rfl).finish fun _ => .pure
  have value := predicts ((Rule.token [.semicolon]).language * K) (Rule.solid_avoids rfl (by decide))
  have avoids : Avoids ((Rule.token [.semicolon]).language * K) [.equal] :=
    Rule.solid_avoids rfl (by decide)
  refine (Predicts.expect (by decide) rfl).bind (fun name => ?_) rfl
  exact .optional (by decide) (value.map.bind (rest name) rfl) rfl
    (.andThen (fun _ => .pure) (rest name) rfl)
    fun v member => absurd member (avoids _ List.mem_cons_self v)

/-- An expression that a semicolon ends. -/
theorem line_predicts {fault : ParseFault} {form : Expr → Stmt} (raised : fault.raised = true)
    (predicts : PredictsExpression expression) :
    Predicts (do
      let value ← expression
      skip .semicolon fault
      return form value) .line K :=
  (predicts _ (Rule.solid_avoids rfl (by decide))).bind
    (fun _ => (Predicts.skip (by decide) raised).finish fun _ => .pure) rfl

theorem returnStatement_predicts (keyword : Token) (predicts : PredictsExpression expression) :
    Predicts (returnStatement keyword expression) .returnBody K := by
  have rest : ∀ value : Option Expr, Predicts (do
      skip .semicolon .noReturnEnd
      return Stmt.return keyword value) (.token [.semicolon]) K := fun _ =>
    (Predicts.skip (by decide) rfl).finish fun _ => .pure
  have value := predicts ((Rule.token [.semicolon]).language * K) (Rule.solid_avoids rfl (by decide))
  exact .before (by decide) (.andThen (fun _ => .pure) rest rfl) (value.map.bind rest rfl) (by decide)
    rfl (by simp [Rule.firsts]) rfl

theorem whileStatement_predicts (predicts : PredictsExpression expression)
    (body : Predicts statement (.symbol .statement) K) :
    Predicts (whileStatement expression statement) .whileBody K := by
  refine (Predicts.skip (by decide) rfl).bind (fun _ => ?_) rfl
  refine (predicts _ (Rule.solid_avoids rfl (by decide))).bind (fun condition => ?_) rfl
  exact (Predicts.skip (by decide) rfl).bind (fun _ => body.finish fun _ => .pure) rfl

theorem ifStatement_predicts (predicts : PredictsExpression expression)
    (branch : PredictsStatement statement) (closed : ElseClosed K) :
    Predicts (ifStatement expression statement) .ifBody K := by
  have otherwise : ∀ (condition : Expr) (thenBranch : Stmt), Predicts (do
      let elseBranch ← if ← accept .kwElse then some <$> statement else pure none
      return Stmt.ite condition thenBranch elseBranch) (.option .alternative) K := by
    intro condition thenBranch
    refine .accept (by decide) (fun other apart => ⟨.empty, .andThen (fun _ => .pure)
      (fun _ => .pure) rfl, .leave (by simpa [Rule.alternative, Rule.firsts, Rule.nullable] using apart)
      rfl⟩) ?_
    exact ⟨.symbol .statement, (branch K closed).map.finish fun _ => .pure, rfl, .take closed⟩
  refine (Predicts.skip (by decide) rfl).bind (fun _ => ?_) rfl
  refine (predicts _ (Rule.solid_avoids rfl (by decide))).bind (fun condition => ?_) rfl
  refine (Predicts.skip (by decide) rfl).bind (fun _ => ?_) rfl
  exact (branch _ closed.alternative).bind (otherwise condition) rfl

theorem forInitializer_predicts (predicts : PredictsExpression expression) :
    Predicts (forInitializer expression) .forInitializer K := by
  refine .accept (by decide) (fun kind other => ?_) ⟨.empty, .pure, rfl, ?_⟩
  · refine ⟨_, .accept (by decide) (fun kind' other' => ⟨_, (line_predicts rfl predicts).map,
      .right .refl ?_ rfl⟩) ⟨_, (varDeclaration_predicts predicts).map, rfl, ?_⟩, .right .refl ?_ rfl⟩
    · simpa [Rule.firsts, Rule.nullable] using other'
    · exact .left .refl (by decide) rfl
    · simpa [Rule.firsts] using other
  · exact (Narrows.pick List.mem_cons_self).left (by decide) rfl

theorem forStatement_predicts (predicts : PredictsExpression expression)
    (body : Predicts statement (.symbol .statement) K) :
    Predicts (forStatement expression statement) .forBody K := by
  -- The clauses are predicted from the last one to the first, for each needs what comes behind it.
  have last : ∀ (initializer : Option Stmt) (condition increment : Option Expr), Predicts (do
      skip .rightParen .noForClausesEnd
      let body ← statement
      return forLoop initializer condition increment body)
      (.seq (.token [.rightParen]) (.symbol .statement)) K := fun _ _ _ =>
    (Predicts.skip (by decide) rfl).bind (fun _ => body.finish fun _ => .pure) rfl
  have increments : ∀ (initializer : Option Stmt) (condition : Option Expr), Predicts (do
      skip .semicolon .noForConditionEnd
      let increment ← if ← next .rightParen then pure none else some <$> expression
      skip .rightParen .noForClausesEnd
      let body ← statement
      return forLoop initializer condition increment body)
      (.seq (.token [.semicolon]) (.seq (.option (.symbol .expression))
        (.seq (.token [.rightParen]) (.symbol .statement)))) K := by
    intro initializer condition
    refine (Predicts.skip (by decide) rfl).bind (fun _ => ?_) rfl
    have increment := predicts (Rule.language (.seq (.token [.rightParen]) (.symbol .statement)) * K)
      (Rule.solid_avoids rfl (by decide))
    exact .before (by decide) (.andThen (fun _ => .pure) (last initializer condition) rfl)
      (increment.map.bind (last initializer condition) rfl) (by decide) rfl
      (by simp [Rule.firsts, Rule.nullable]) rfl
  refine (Predicts.skip (by decide) rfl).bind (fun _ => ?_) rfl
  refine (forInitializer_predicts predicts).bind (fun initializer => ?_) rfl
  have condition := predicts (Rule.language (.seq (.token [.semicolon])
    (.seq (.option (.symbol .expression)) (.seq (.token [.rightParen]) (.symbol .statement)))) * K)
    (Rule.solid_avoids rfl (by decide))
  exact .before (by decide) (.andThen (fun _ => .pure) (increments initializer) rfl)
    (condition.map.bind (increments initializer) rfl) (by decide) rfl
    (by simp [Rule.firsts, Rule.nullable]) rfl

end Statements

section Declarations

variable {expression : Parser Expr} {depth : Nat}

theorem statementAfter_predicts {keyword : Token} (predicts : PredictsExpression expression)
    (inner : PredictsStatement (statement expression depth))
    (nested : PredictsDeclaration (declaration expression depth)) (closed : ElseClosed K)
    {kind : TokenKind} (listed : kind ∈ statementStarts) :
    ∃ c, Predicts (statementAfter expression depth keyword kind) c K ∧
      c.productive Nonterminal.all = true ∧
      Narrows (.seq (.token [kind]) c) (.symbol .statement) K kind := by
  simp only [statementStarts, List.mem_cons, List.not_mem_nil, or_false] at listed
  rcases listed with rfl | rfl | rfl | rfl | rfl | rfl
  · exact ⟨.forBody, forStatement_predicts predicts (inner K closed), rfl,
      .symbol (.selected (by simp) (by decide) (by decide) rfl)⟩
  · exact ⟨.ifBody, ifStatement_predicts predicts inner closed, rfl,
      .symbol (.selected (by simp) (by decide) (by decide) rfl)⟩
  · exact ⟨.line, line_predicts rfl predicts, rfl,
      .symbol (.selected (by simp) (by decide) (by decide) rfl)⟩
  · exact ⟨.returnBody, returnStatement_predicts keyword predicts, rfl,
      .symbol (.selected (by simp) (by decide) (by decide) rfl)⟩
  · exact ⟨.whileBody, whileStatement_predicts predicts (inner K closed), rfl,
      .symbol (.selected (by simp) (by decide) (by decide) rfl)⟩
  · exact ⟨.block, (block_predicts nested).finish fun _ => .pure, rfl,
      .symbol (.selected (by simp) (by decide) (by decide) rfl)⟩

theorem declarationAfter_predicts (predicts : PredictsExpression expression)
    (nested : PredictsDeclaration (declaration expression depth))
    {kind : TokenKind} (listed : kind ∈ declarationStarts) :
    ∃ c, Predicts (declarationAfter expression depth kind) c K ∧
      c.productive Nonterminal.all = true ∧
      Narrows (.seq (.token [kind]) c) (.symbol .declaration) K kind := by
  simp only [declarationStarts, List.mem_cons, List.not_mem_nil, or_false] at listed
  rcases listed with rfl | rfl | rfl
  · exact ⟨.classBody, classDeclaration_predicts nested, rfl,
      .symbol (.selected (by simp) (by decide) (by decide) rfl)⟩
  · exact ⟨.function, (function_predicts .function nested).finish fun _ => .pure, rfl,
      .symbol (.selected (by simp) (by decide) (by decide) rfl)⟩
  · exact ⟨.variableBody, varDeclaration_predicts predicts, rfl,
      .symbol (.selected (by simp) (by decide) (by decide) rfl)⟩

mutual

theorem statement_predicts (predicts : PredictsExpression expression) (depth : Nat) :
    PredictsStatement (statement expression depth) := by
  intro K closed
  cases depth with
  | zero => exact .tooDeep
  | succ depth =>
    rw [statement_eq]
    refine .accept? (by decide) (fun kind other => ⟨_, line_predicts rfl predicts,
      .symbol (.unselected other)⟩) fun o listed => ?_
    exact statementAfter_predicts predicts (statement_predicts predicts depth)
      (declaration_predicts predicts depth) closed listed

theorem declaration_predicts (predicts : PredictsExpression expression) (depth : Nat) :
    PredictsDeclaration (declaration expression depth) := by
  intro K avoids
  cases depth with
  | zero => exact .tooDeep
  | succ depth =>
    rw [declaration_eq]
    refine .recovering (.accept? (by decide) (fun kind other => ⟨_, statement_predicts predicts depth K
      avoids.elseClosed, .symbol (.unselected other)⟩) fun o listed => ?_)
    exact declarationAfter_predicts predicts (declaration_predicts predicts depth) listed

end

end Declarations

/-! ## Programs -/

/-- Nothing but the end of the input. -/
def endOnly : Language TokenKind := {[.endOfInput]}

theorem program_loops (depth count : Nat) : Loops (fun k => k != .endOfInput)
    (unlessEnded (declaration (expression depth) depth) count) (.symbol .declaration)
    (Rule.program.language * endOnly) := by
  have avoids : Avoids endOnly [.kwElse] := by
    intro kind here v member
    obtain rfl := List.mem_singleton.1 here
    cases member
  exact .unlessEnded (declaration_predicts (expression_predicts depth) depth _
    (Rule.avoids (by decide) fun _ => avoids)) count

theorem program_predicts (depth : Nat) : Predicts (program depth) .program endOnly := by
  refine (Predicts.many (program_loops depth) (by decide) rfl fun kind goes v member => ?_).map
  cases member
  cases goes

/-- A program that raises no fault is read to its end. -/
theorem program_ended {depth : Nat} {s s' : State} {statements : List Stmt} (proper : s.Proper)
    (outcome : program depth s = .ok statements s') (proper' : s'.Proper)
    (silent : Silent s'.errors.toList) : s'.Ended := by
  unfold program at outcome
  change (many (unlessEnded (declaration (expression depth) depth)) >>= _) s = _ at outcome
  cases found : many (unlessEnded (declaration (expression depth) depth)) s with
  | error halt t =>
    rw [bind_error found] at outcome
    cases outcome
  | ok declarations t =>
    rw [bind_ok found] at outcome
    cases outcome
    have stops := many_rests (program_loops depth) rfl proper found silent
    exact proper'.ended (by simpa using stops)

end Lox.Grammar
