import Lox.Proofs.Desugaring.Ladders
import Lox.Proofs.Scope.Bindings

/-!
# Ladders of scopes

Where two places have the same scopes around them, up to empty ones, the resolver finds distances that
lead to the same scopes. So a text that it looks at in both places shifts along the ladder that compares
these.
-/

namespace Lox

/-! ## Scopes -/

/-- The scopes around two places. None that is missing lies just inside the scope for a superclass. -/
inductive Ladder.Scopes : Ladder → List Scope → List Scope → Prop where
  | outside (scopes : List Scope) : Scopes [] scopes scopes
  | common {l : Ladder} {scopes scopes' : List Scope} (scope : Scope) :
      Scopes l scopes scopes' → Scopes (.common :: l) (scope :: scopes) (scope :: scopes')
  | left {l : Ladder} {scopes scopes' : List Scope} :
      (∀ s ∈ scopes.head?, s.contains "super" = false) → Scopes l scopes scopes' →
      Scopes (.left :: l) (.empty :: scopes) scopes'
  | right {l : Ladder} {scopes scopes' : List Scope} :
      (∀ s ∈ scopes'.head?, s.contains "super" = false) → Scopes l scopes scopes' →
      Scopes (.right :: l) scopes (.empty :: scopes')

namespace Ladder.Scopes

variable {l : Ladder} {scopes scopes' : List Scope}

/-- The distance of a name from within the scopes. -/
def distance? (scopes : List Scope) (name : String) : Option Nat := scopes.findIdx? (·.contains name)

theorem distance?_cons (scope : Scope) (scopes : List Scope) (name : String) :
    distance? (scope :: scopes) name =
      if scope.contains name then some 0 else (distance? scopes name).map (· + 1) := by
  rw [distance?, List.findIdx?_cons]
  rfl

theorem distance?_empty (scopes : List Scope) (name : String) :
    distance? (.empty :: scopes) name = (distance? scopes name).map (· + 1) :=
  distance?_cons ..

theorem head_of_zero {name : String} (zero : distance? scopes name = some 0) :
    ∃ s ∈ scopes.head?, s.contains name = true := by
  cases scopes with
  | nil => cases zero
  | cons scope rest =>
    refine ⟨scope, rfl, ?_⟩
    rw [distance?_cons] at zero
    split at zero
    · assumption
    · cases here : distance? rest name <;> simp [here] at zero

theorem distances (related : l.Scopes scopes scopes') (name : String) :
    Option.Rel l.Aligned (distance? scopes name) (distance? scopes' name) := by
  induction related with
  | outside scopes =>
    cases distance? scopes name with
    | none => exact .none
    | some d => exact .some (.outside d)
  | @common _ scopes scopes' scope _ inductionHypothesis =>
    rw [distance?_cons, distance?_cons]
    generalize distance? scopes name = d, distance? scopes' name = d' at inductionHypothesis
    split
    · exact .some .here
    · cases inductionHypothesis with
      | none => exact .none
      | some aligned => exact .some (.common aligned)
  -- An empty scope has no name, and puts the distances on its side up by one.
  | @left _ scopes scopes' _ _ inductionHypothesis =>
    rw [distance?_empty]
    generalize distance? scopes name = d, distance? scopes' name = d' at inductionHypothesis
    cases inductionHypothesis with
    | none => exact .none
    | some aligned => exact .some (.left aligned)
  | @right _ scopes scopes' _ _ inductionHypothesis =>
    rw [distance?_empty]
    generalize distance? scopes name = d, distance? scopes' name = d' at inductionHypothesis
    cases inductionHypothesis with
    | none => exact .none
    | some aligned => exact .some (.right aligned)

/-- The distances of scopes just inside of two others, unless these are the innermost. -/
inductive Inside (l : Ladder) : Nat → Nat → Prop where
  | innermost : l.Open → Inside l 0 0
  | further {d d' : Nat} : l.Aligned d d' → Inside l (d + 1) (d' + 1)

theorem inside_super (related : l.Scopes scopes scopes') :
    Option.Rel (Inside l) (distance? scopes "super") (distance? scopes' "super") := by
  induction related with
  | outside scopes =>
    cases distance? scopes "super" with
    | none => exact .none
    | some d =>
      cases d with
      | zero => exact .some (.innermost (.outside 0))
      | succ d => exact .some (.further (.outside d))
  | @common _ scopes scopes' scope _ inductionHypothesis =>
    rw [distance?_cons, distance?_cons]
    generalize distance? scopes "super" = d, distance? scopes' "super" = d' at inductionHypothesis
    split
    · exact .some (.innermost .here)
    · cases inductionHypothesis with
      | none => exact .none
      | some inside =>
        cases inside with
        | innermost => exact .some (.further .here)
        | further aligned => exact .some (.further (.common aligned))
  | @left _ scopes scopes' solid _ inductionHypothesis =>
    rw [distance?_empty]
    generalize found : distance? scopes "super" = d, distance? scopes' "super" = d'
      at inductionHypothesis
    cases inductionHypothesis with
    | none => exact .none
    | some inside =>
      cases inside with
      | innermost =>
        -- The scope behind an empty one does not have `super`, so it is not found right there.
        obtain ⟨s, here, contains⟩ := head_of_zero found
        rw [solid s here] at contains
        cases contains
      | further aligned => exact .some (.further (.left aligned))
  | @right _ scopes scopes' solid _ inductionHypothesis =>
    rw [distance?_empty]
    generalize distance? scopes "super" = d, found : distance? scopes' "super" = d'
      at inductionHypothesis
    cases inductionHypothesis with
    | none => exact .none
    | some inside =>
      cases inside with
      | innermost =>
        obtain ⟨s, here, contains⟩ := head_of_zero found
        rw [solid s here] at contains
        cases contains
      | further aligned => exact .some (.further (.right aligned))

theorem super (related : l.Scopes scopes scopes') :
    Option.Rel l.SuperAligned (distance? scopes "super") (distance? scopes' "super") := by
  have aligned := related.distances "super"
  have inside := related.inside_super
  generalize distance? scopes "super" = d, distance? scopes' "super" = d' at aligned inside
  cases aligned with
  | none => exact .none
  | some aligned =>
    cases inside with
    | some inside =>
      cases inside with
      | innermost isOpen => exact .some ⟨aligned, isOpen⟩
      | further before => exact .some ⟨aligned, before⟩

end Ladder.Scopes

/-! ## Places -/

/-- The scopes around the places compare by the ladder. -/
def Place.Aligned (l : Ladder) (p p' : Place) : Prop := l.Scopes p.scopes p'.scopes

namespace Place.Aligned

variable {l : Ladder} {p p' : Place}

theorem refl (p : Place) : p.Aligned [] p := .outside _

theorem distances (aligned : p.Aligned l p') (name : String) :
    Option.Rel l.Aligned (p.distance? name) (p'.distance? name) :=
  Ladder.Scopes.distances aligned name

theorem enter (aligned : p.Aligned l p') (scope : Scope) (origin origin' : Origin) :
    (p.enter scope origin).Aligned (.common :: l) (p'.enter scope origin') :=
  .common scope aligned

theorem scopes_mark (p : Place) (name : String) (complete : Bool) :
    (p.mark name complete).scopes =
      match p.scopes with
      | [] => []
      | scope :: outer => scope.insert name complete :: outer := by
  obtain ⟨levels, context⟩ := p
  cases levels <;> rfl

theorem mark (aligned : p.Aligned l p') (isOpen : l.Open) (name : String) (complete : Bool) :
    (p.mark name complete).Aligned l (p'.mark name complete) := by
  unfold Place.Aligned at aligned ⊢
  rw [scopes_mark, scopes_mark]
  generalize p.scopes = scopes, p'.scopes = scopes' at aligned
  cases aligned with
  | outside => exact .outside _
  | common scope aligned => exact .common _ aligned
  | left | right => cases isOpen

theorem declareComplete (aligned : p.Aligned l p') (isOpen : l.Open) (name : Token) :
    (p.declareComplete name).Aligned l (p'.declareComplete name) :=
  (aligned.mark isOpen name.lexeme false).mark isOpen name.lexeme true

theorem parameters (names : List Token) (aligned : p.Aligned l p') (isOpen : l.Open) :
    (names.foldl Place.declareComplete p).Aligned l (names.foldl Place.declareComplete p') := by
  induction names generalizing p p' with
  | nil => exact aligned
  | cons name rest inductionHypothesis =>
    exact inductionHypothesis (aligned.declareComplete isOpen name)

theorem enterFunction (aligned : p.Aligned l p') {f f' : Function}
    (same : f'.parameters = f.parameters) :
    (p.enterFunction f).Aligned (.common :: l) (p'.enterFunction f') := by
  unfold Place.enterFunction
  rw [same]
  exact .parameters _ (aligned.enter ..) .here

theorem enterClass (aligned : p.Aligned l p') (isOpen : l.Open) {name : Occurrence}
    {superclass superclass' : Option Occurrence} {methods methods' : List Function}
    (same : superclass'.isSome = superclass.isSome) :
    (p.enterClass ⟨name, superclass, methods⟩).Aligned (.common :: l.inner superclass)
      (p'.enterClass ⟨name, superclass', methods'⟩) := by
  have declared := aligned.declareComplete isOpen name.token
  cases superclass with
  | none =>
    obtain rfl : superclass' = none := by simpa using same
    exact declared.enter (Resolver.implicitScope "this") (.this ⟨name, none, methods⟩)
      (.this ⟨name, none, methods'⟩)
  | some o =>
    obtain ⟨o', rfl⟩ := Option.isSome_iff_exists.1 same
    exact (declared.enter (Resolver.implicitScope "super") (.super ⟨name, some o, methods⟩)
      (.super ⟨name, some o', methods'⟩)).enter (Resolver.implicitScope "this")
      (.this ⟨name, some o, methods⟩) (.this ⟨name, some o', methods'⟩)

end Place.Aligned

/-! ## Trees -/

section Trees

variable {V : Versions} {r : Nat → Nat} {l : Ladder} {p p' : Place}

theorem Place.Aligned.occurrence (aligned : p.Aligned l p') {x x' : Subject} {o : Occurrence}
    {form form' : MentionForm} (known : V.distances.At ⟨x, p⟩)
    (mention : x.mention? = some (form, o)) (known' : V.distances'.At ⟨x', p'⟩)
    (mention' : x'.mention? = some (form', o.renumber r)) : o.Shifts V r l.Aligned := by
  rw [Occurrence.Shifts, known form o mention]
  have other := known' form' _ mention'
  rw [Occurrence.renumber] at other
  rw [other]
  exact aligned.distances o.name

theorem Place.Aligned.super (aligned : p.Aligned l p') {o : Occurrence}
    (known : V.distances.At ⟨.mention .super o, p⟩) (spelled : o.name = "super")
    (known' : V.distances'.At ⟨.mention .super (o.renumber r), p'⟩) :
    o.Shifts V r l.SuperAligned := by
  have here := known .super o rfl
  have other := known' .super _ rfl
  rw [Occurrence.name_renumber, Occurrence.renumber] at other
  rw [Occurrence.Shifts, here, other, spelled]
  exact Ladder.Scopes.super aligned

/-- The distance from the place of the visit, and the text that the subject has. -/
structure Visit.Known (D : Distances) (v : Visit) : Prop where
  distance : D.At v
  spelled : v.subject.Spelled

mutual

theorem Expr.shifts_of_aligned (aligned : p.Aligned l p') (e : Expr)
    (known : ∀ v ∈ e.visits p, v.Known V.distances)
    (known' : ∀ v ∈ (e.renumber r).visits p', V.distances'.At v) : e.Shifts V r l := by
  cases e with
  | literal => trivial
  | grouping inner => exact inner.shifts_of_aligned aligned known known'
  | name target =>
    exact aligned.occurrence (known _ List.mem_cons_self).distance rfl
      (known' _ List.mem_cons_self) rfl
  | assign target value =>
    obtain ⟨inValue, inTarget⟩ := List.forall_mem_append.1 known
    obtain ⟨inValue', inTarget'⟩ := List.forall_mem_append.1 known'
    exact ⟨value.shifts_of_aligned aligned inValue inValue',
      aligned.occurrence (inTarget _ List.mem_cons_self).distance rfl
        (inTarget' _ List.mem_cons_self) rfl⟩
  | unary operator operand => exact operand.shifts_of_aligned aligned known known'
  | binary left operator right | logical left operator right =>
    obtain ⟨inLeft, inRight⟩ := List.forall_mem_append.1 known
    obtain ⟨inLeft', inRight'⟩ := List.forall_mem_append.1 known'
    exact ⟨left.shifts_of_aligned aligned inLeft inLeft',
      right.shifts_of_aligned aligned inRight inRight'⟩
  | call callee paren arguments =>
    obtain ⟨inCallee, inArguments⟩ := List.forall_mem_append.1 known
    obtain ⟨inCallee', inArguments'⟩ := List.forall_mem_append.1 known'
    exact ⟨callee.shifts_of_aligned aligned inCallee inCallee',
      Expr.allShift_of_aligned aligned arguments inArguments inArguments'⟩
  | get object property => exact object.shifts_of_aligned aligned known known'
  | set object property value =>
    obtain ⟨inValue, inObject⟩ := List.forall_mem_append.1 known
    obtain ⟨inValue', inObject'⟩ := List.forall_mem_append.1 known'
    exact ⟨value.shifts_of_aligned aligned inValue inValue',
      object.shifts_of_aligned aligned inObject inObject'⟩
  | this keyword =>
    exact aligned.occurrence (known _ List.mem_cons_self).distance rfl
      (known' _ List.mem_cons_self) rfl
  | super keyword method =>
    have here := known _ List.mem_cons_self
    exact aligned.super here.distance here.spelled (known' _ List.mem_cons_self)

theorem Expr.allShift_of_aligned (aligned : p.Aligned l p') (es : List Expr)
    (known : ∀ v ∈ Expr.allVisits p es, v.Known V.distances)
    (known' : ∀ v ∈ Expr.allVisits p' (Expr.renumberAll r es), V.distances'.At v) :
    Expr.AllShift V r l es := by
  cases es with
  | nil => trivial
  | cons e rest =>
    obtain ⟨here, later⟩ := List.forall_mem_append.1 known
    obtain ⟨here', later'⟩ := List.forall_mem_append.1 known'
    exact ⟨e.shifts_of_aligned aligned here here', Expr.allShift_of_aligned aligned rest later later'⟩

end

/-- Declarations by other numbers are the same. -/
theorem Stmt.after_renumber (s : Stmt) (p : Place) : (s.renumber r).after p = s.after p := by
  match s with
  | .var name none | .var name (some _) | .return keyword none | .return keyword (some _) => rfl
  | .expression _ | .print _ | .block _ | .class _ _ _ => rfl
  | .function declaration => simp [Stmt.renumber, Stmt.after]
  | .ite _ thenBranch none => exact thenBranch.after_renumber p
  | .ite _ thenBranch (some elseBranch) =>
    rw [Stmt.renumber, Stmt.after, thenBranch.after_renumber p, elseBranch.after_renumber]
    rfl
  | .while _ body => exact body.after_renumber p

theorem Place.Aligned.after (aligned : p.Aligned l p') (isOpen : l.Open) {s : Stmt}
    (placed : s.WellPlaced) : (s.after p).Aligned l (s.after p') := by
  cases declared : s.declared? with
  | none =>
    rwa [Stmt.after_of_not_declared p s placed declared,
      Stmt.after_of_not_declared p' s placed declared]
  | some name =>
    rw [Stmt.after_of_declared p declared, Stmt.after_of_declared p' declared]
    exact aligned.declareComplete isOpen name

mutual

/-- A declaration is looked at only where the innermost scopes correspond. -/
theorem Stmt.shifts_of_aligned {l : Ladder} {p p' : Place} (aligned : p.Aligned l p') (s : Stmt)
    (placed : s.WellPlaced) (ready : s.declared? = none ∨ l.Open)
    (known : ∀ v ∈ s.visits p, v.Known V.distances)
    (known' : ∀ v ∈ (s.renumber r).visits p', V.distances'.At v) : s.Shifts V r l := by
  match s with
  | .expression value | .print value => exact value.shifts_of_aligned aligned known known'
  | .var name none => exact ready.resolve_left (by simp [Stmt.declared?])
  | .var name (some initializer) =>
    have isOpen : l.Open := ready.resolve_left (by simp [Stmt.declared?])
    exact ⟨isOpen, initializer.shifts_of_aligned (aligned.mark isOpen name.lexeme false)
      (List.forall_mem_cons.1 known).2 (List.forall_mem_cons.1 known').2⟩
  | .block body => exact Stmt.allShift_of_aligned (aligned.enter ..) .here body placed known known'
  | .ite condition thenBranch none =>
    rw [Stmt.WellPlaced] at placed
    obtain ⟨inCondition, inThen⟩ := List.forall_mem_append.1 known
    obtain ⟨inCondition', inThen'⟩ := List.forall_mem_append.1 known'
    exact ⟨condition.shifts_of_aligned aligned inCondition inCondition',
      Stmt.shifts_of_aligned aligned thenBranch placed.2 (.inl placed.1) inThen inThen'⟩
  | .ite condition thenBranch (some elseBranch) =>
    rw [Stmt.WellPlaced] at placed
    obtain ⟨⟨silentThen, placedThen⟩, silentElse, placedElse⟩ := placed
    obtain ⟨inBoth, inElse⟩ := List.forall_mem_append.1 known
    obtain ⟨inBoth', inElse'⟩ := List.forall_mem_append.1 known'
    obtain ⟨inCondition, inThen⟩ := List.forall_mem_append.1 inBoth
    obtain ⟨inCondition', inThen'⟩ := List.forall_mem_append.1 inBoth'
    -- The first branch declares nothing on either side, so both branches are at the same places.
    rw [Stmt.after_of_not_declared p thenBranch placedThen silentThen] at inElse
    rw [Stmt.after_renumber, Stmt.after_of_not_declared p' thenBranch placedThen silentThen] at inElse'
    exact ⟨condition.shifts_of_aligned aligned inCondition inCondition',
      Stmt.shifts_of_aligned aligned thenBranch placedThen (.inl silentThen) inThen inThen',
      Stmt.shifts_of_aligned aligned elseBranch placedElse (.inl silentElse) inElse inElse'⟩
  | .while condition body =>
    rw [Stmt.WellPlaced] at placed
    obtain ⟨inCondition, inBody⟩ := List.forall_mem_append.1 known
    obtain ⟨inCondition', inBody'⟩ := List.forall_mem_append.1 known'
    exact ⟨condition.shifts_of_aligned aligned inCondition inCondition',
      Stmt.shifts_of_aligned aligned body placed.2 (.inl placed.1) inBody inBody'⟩
  | .function declaration =>
    have isOpen : l.Open := ready.resolve_left (by simp [Stmt.declared?])
    have inside : ((p.declareComplete declaration.name).withFunction .function).Aligned l
        ((p'.declareComplete (declaration.renumber r).name).withFunction .function) := by
      rw [Function.name_renumber]
      exact aligned.declareComplete isOpen declaration.name
    exact ⟨isOpen, Function.shifts_of_aligned inside declaration placed
      (List.forall_mem_cons.1 known).2 (List.forall_mem_cons.1 known').2⟩
  | .return keyword none => trivial
  | .return keyword (some value) =>
    exact value.shifts_of_aligned aligned (List.forall_mem_cons.1 known).2
      (List.forall_mem_cons.1 known').2
  | .class name superclass methods =>
    have isOpen : l.Open := ready.resolve_left (by simp [Stmt.declared?])
    obtain ⟨inHead, inMethods⟩ := List.forall_mem_append.1 known
    obtain ⟨inHead', inMethods'⟩ := List.forall_mem_append.1 known'
    have inside : (p.enterClass ⟨name, superclass, methods⟩).Aligned (.common :: l.inner superclass)
        (p'.enterClass
          ⟨name, superclass.map (Occurrence.renumber r), Function.renumberAll r methods⟩) :=
      aligned.enterClass isOpen (by simp)
    refine ⟨isOpen, ?_, Function.allShift_of_aligned inside methods placed inMethods inMethods'⟩
    rintro o here
    obtain rfl := Option.mem_def.1 here
    exact (aligned.declareComplete isOpen name.token).occurrence
      ((List.forall_mem_cons.1 inHead).2 _ List.mem_cons_self).distance rfl
      ((List.forall_mem_cons.1 inHead').2 _ List.mem_cons_self) rfl

theorem Stmt.allShift_of_aligned {l : Ladder} {p p' : Place} (aligned : p.Aligned l p')
    (isOpen : l.Open) (ss : List Stmt) (placed : Stmt.AllWellPlaced ss)
    (known : ∀ v ∈ Stmt.allVisits p ss, v.Known V.distances)
    (known' : ∀ v ∈ Stmt.allVisits p' (Stmt.renumberAll r ss), V.distances'.At v) :
    Stmt.AllShift V r l ss := by
  cases ss with
  | nil => trivial
  | cons s rest =>
    rw [Stmt.AllWellPlaced] at placed
    obtain ⟨here, later⟩ := List.forall_mem_append.1 known
    obtain ⟨here', later'⟩ := List.forall_mem_append.1 known'
    rw [Stmt.after_renumber] at later'
    exact ⟨Stmt.shifts_of_aligned aligned s placed.1 (.inr isOpen) here here',
      Stmt.allShift_of_aligned (aligned.after isOpen placed.1) isOpen rest placed.2 later later'⟩

theorem Function.shifts_of_aligned {l : Ladder} {p p' : Place} (aligned : p.Aligned l p')
    (f : Function) (placed : f.WellPlaced) (known : ∀ v ∈ f.visits p, v.Known V.distances)
    (known' : ∀ v ∈ (f.renumber r).visits p', V.distances'.At v) : f.Shifts V r l := by
  cases f with
  | mk name parameters body =>
    have inside : (p.enterFunction (.mk name parameters body)).Aligned (.common :: l)
        (p'.enterFunction (.mk name parameters (Stmt.renumberAll r body))) := aligned.enterFunction rfl
    exact Stmt.allShift_of_aligned inside .here body placed (List.forall_mem_append.1 known).2
      (List.forall_mem_append.1 known').2

theorem Function.allShift_of_aligned {l : Ladder} {p p' : Place} (aligned : p.Aligned l p')
    (fs : List Function) (placed : Function.AllWellPlaced fs)
    (known : ∀ v ∈ Function.methodVisits p fs, v.Known V.distances)
    (known' : ∀ v ∈ Function.methodVisits p' (Function.renumberAll r fs), V.distances'.At v) :
    Function.AllShift V r l fs := by
  cases fs with
  | nil => trivial
  | cons f rest =>
    rw [Function.AllWellPlaced] at placed
    obtain ⟨here, later⟩ := List.forall_mem_append.1 known
    obtain ⟨here', later'⟩ := List.forall_mem_append.1 known'
    have inside : (p.withFunction f.methodContext).Aligned l
        (p'.withFunction (f.renumber r).methodContext) := aligned
    exact ⟨Function.shifts_of_aligned inside f placed.1 here here',
      Function.allShift_of_aligned aligned rest placed.2 later later'⟩

end

end Trees

end Lox
