import Lox.Proofs.Desugaring.Clauses
import Lox.Proofs.Desugaring.Meaning
import Lox.Proofs.Grammar.Completeness
import Lox.Proofs.Scope.Sites
import Lox.Proofs.Session.Handles
import Mathlib.Computability.Primrec.List
import Mathlib.Data.List.Permutation

/-!
# A `for` statement and its tree

Executing the tree that the parser makes of a `for` statement does what the statement means: both end alike,
and what was there before is the same after both. The tree runs with the distances that the resolver
found in the program. The direct meaning has the distances that the resolver finds for the clauses and
the body in one scope.
-/

namespace Lox

/-! ## Statements at a place -/

/-- The distances that the resolver records for a statement at a place. -/
def Stmt.bindings (p : Place) (s : Stmt) : List Binding :=
  (s.resolve p.context { Resolver.initial with scopes := p.scopes }).bindings.toList

theorem Stmt.bindings_eq (p : Place) (s : Stmt) :
    s.bindings p = (s.visits p).filterMap Visit.binding? := by
  have found := Stmt.resolve_after (p := p) rfl s { Resolver.initial with scopes := p.scopes } []
  rw [Resolver.after_nil rfl] at found
  rw [bindings, found]
  simp [Resolver.after, Resolver.initial]

/-- Where no occurrence is looked at twice, the resolver finds the distances from all places. -/
theorem Distances.addAll_bindings {D : Distances} {p : Place} {s : Stmt}
    (lawful : ∀ v ∈ s.visits p, v.Lawful) (distinct : (Subject.ids s.subjects).Nodup)
    (new : ∀ n ∈ Subject.ids s.subjects, D.find? n = none) :
    ∀ v ∈ s.visits p, (D.addAll (s.bindings p)).At v := by
  have ids : (s.visits p).filterMap Visit.id? = Subject.ids s.subjects := by
    rw [Visit.ids_eq, s.map_subject_visits]
  intro v visited
  rw [s.bindings_eq]
  refine Distances.find?_addAll_visits (ids ▸ distinct) (fun v visited n id => new n ?_)
    (fun v visited _ _ mention => (lawful v visited).binding?_eq mention) visited
  rw [← ids]
  exact List.mem_filterMap.2 ⟨v, visited, id⟩

/-- Distances of other occurrences stay as they were. -/
theorem Distances.addAll_bindings_of_absent {D : Distances} {p : Place} {s : Stmt} {n : Nat}
    (absent : n ∉ Subject.ids s.subjects) : (D.addAll (s.bindings p)).find? n = D.find? n := by
  refine Distances.find?_addAll_of_absent fun b found same => absent ?_
  rw [s.bindings_eq] at found
  obtain ⟨v, visited, bound⟩ := List.mem_filterMap.1 found
  rw [← s.map_subject_visits p, ← Visit.ids_eq, ← same]
  exact List.mem_filterMap.2 ⟨v, visited, Visit.id?_of_mention (Visit.binding?_eq_some bound).1⟩

/-! ## The direct meaning, resolved -/

namespace ForLoop

/-- The statement with numbers for its occurrences that are not in use. -/
def fresh (next : Nat) (c : ForLoop) : ForLoop := c.renumber (· + next)

/--
Runs the statement in one scope, with the distances that the resolver finds for its parts in that scope
at place `p`.
-/
def direct (next : Nat) (p : Place) (loops depth : Nat) (c : ForLoop) : Run Unit := fun m =>
  (c.fresh next).run loops depth (m.addDistances ((Stmt.block (c.fresh next).parts).bindings p))

theorem subjects_tree (c : ForLoop) : c.tree.subjects = Stmt.allSubjects c.parts := by
  obtain ⟨initializer, condition, increment, body, -⟩ := c
  cases initializer <;> cases condition <;> cases increment <;>
    simp [tree, parts, rounds, Grammar.forLoop, Stmt.subjects, Stmt.allSubjects, Expr.subjects]

theorem wellPlaced_parts {c : ForLoop} (placed : c.tree.WellPlaced) : Stmt.AllWellPlaced c.parts := by
  obtain ⟨initializer, condition, increment, body, plain⟩ := c
  have placedRounds : ∀ condition increment, Stmt.AllWellPlaced (rounds condition increment body) := by
    have placedBody : body.WellPlaced := by
      cases initializer with
      | none => exact wellPlaced_body placed
      | some first => exact wellPlaced_body placed.2.1
    intro condition increment
    cases condition <;> cases increment <;>
      simp [rounds, Stmt.AllWellPlaced, Stmt.WellPlaced, placedBody]
  cases initializer with
  | none => exact placedRounds condition increment
  | some first => exact ⟨placed.1, placedRounds condition increment⟩

section Fresh

variable {next : Nat} {c : ForLoop}

theorem subjects_fresh (next : Nat) (c : ForLoop) :
    (Stmt.block (c.fresh next).parts).subjects = c.tree.subjects.map (Subject.renumber (· + next)) := by
  rw [Stmt.subjects, fresh, parts_renumber, Stmt.allSubjects_renumber, subjects_tree]

theorem ids_fresh (next : Nat) (c : ForLoop) :
    Subject.ids (Stmt.block (c.fresh next).parts).subjects =
      (Subject.ids c.tree.subjects).map (· + next) := by
  rw [subjects_fresh, Subject.ids_renumber]

theorem le_of_fresh {n : Nat} (found : n ∈ Subject.ids (Stmt.block (c.fresh next).parts).subjects) :
    next ≤ n := by
  rw [ids_fresh] at found
  obtain ⟨k, -, rfl⟩ := List.mem_map.1 found
  exact Nat.le_add_left next k

theorem fresh_lawful {p : Place} (regular : p.IsRegular) (placed : c.tree.WellPlaced)
    (spelled : ∀ x ∈ c.tree.subjects, x.Spelled) :
    ∀ v ∈ (Stmt.block (c.fresh next).parts).visits p, v.Lawful := by
  refine Stmt.visits_lawful p regular _ ?_ ?_ nofun
  · rw [subjects_fresh]
    exact List.forall_mem_map.2 fun x member => Subject.spelled_renumber (spelled x member)
  · rw [Stmt.WellPlaced, fresh, parts_renumber]
    exact Stmt.allWellPlaced_renumber _ (wellPlaced_parts placed)

/-- The distances on a machine, and those with which the direct meaning runs on it. -/
def versions (next : Nat) (p : Place) (c : ForLoop) (D : Distances) : Versions :=
  ⟨D, D.addAll ((Stmt.block (c.fresh next).parts).bindings p)⟩

theorem versions_agree (p : Place) (D : Distances) {n : Nat} (below : n < next) :
    (c.versions next p D).distances'.find? n = D.find? n :=
  Distances.addAll_bindings_of_absent fun found => Nat.not_lt.2 (le_of_fresh found) below

/-- Between the tree in an accepted program and its parts in one scope. -/
theorem shifts_of_site {program : Program} {first last : Nat}
    (accepted : program.Accepted first last) {m : Machine} (ready : m.Ready next program) {p : Place}
    (site : ⟨c.tree, p⟩ ∈ programSites program) :
    c.Shifts (c.versions next p m.distances) (· + next) [] := by
  obtain ⟨placed, regular, part⟩ := programSites_lie accepted.placed accepted.read.spelled _ site
  have known : ∀ v ∈ c.tree.visits p, v.Known m.distances := fun v visited =>
    have visited := part.subset visited
    ⟨ready.resolved v visited, (accepted.lawful v visited).spelled⟩
  -- All numbers move by the same amount, and so they stay apart.
  have distinct : (Subject.ids (Stmt.block (c.fresh next).parts).subjects).Nodup := by
    have all := accepted.read.distinct
    rw [← programVisits_ids] at all
    rw [ids_fresh, ← c.tree.map_subject_visits p, ← Visit.ids_eq]
    exact List.Pairwise.map (· + next)
      (fun _ _ different same => different (Nat.add_right_cancel same))
      (all.sublist (part.filterMap _))
  have lawful : ∀ v ∈ (Stmt.block (c.fresh next).parts).visits p, v.Lawful :=
    fresh_lawful regular placed (Stmt.spelled_of_known known)
  exact shifts_of_known regular placed known (Distances.addAll_bindings lawful distinct fun n found =>
    ready.closed.fresh n (le_of_fresh found))

end Fresh

/-! ## The tree and the direct meaning -/

/-- What the grammar derives as a statement declares nothing around it. -/
theorem declared?_tree {dangling : Bool} (d : Grammar.Derivation (.statement dangling)) :
    d.tree.declared? = none := by
  cases d with
  | expressionOnly statement => cases statement; rfl
  | «for» _ _ initializer _ _ _ _ _ =>
    rw [Grammar.Derivation.tree]
    cases initializer.tree <;> rfl
  | _ => rfl

/-- The loop of the clauses and the body that are derived. -/
def ofClauses {dangling : Bool} (initializer : Grammar.Derivation .forInitializer)
    (condition increment : Grammar.Derivation .optional)
    (body : Grammar.Derivation (.statement dangling)) : ForLoop where
  initializer := initializer.tree
  condition := condition.tree
  increment := increment.tree
  body := body.tree
  plain := declared?_tree body

/-- What `forStatement` reads becomes the tree of the loop whose clauses stand there. -/
theorem forStatement_tree {dangling : Bool} (left : Grammar.Terminal [.leftParen])
    (initializer : Grammar.Derivation .forInitializer) (condition : Grammar.Derivation .optional)
    (semicolon : Grammar.Terminal [.semicolon]) (increment : Grammar.Derivation .optional)
    (right : Grammar.Terminal [.rightParen]) (body : Grammar.Derivation (.statement dangling))
    (height depth : Nat) :
    Grammar.Accepts (Grammar.forStatement (Grammar.expression height)
        (Grammar.statement (Grammar.expression height) depth))
      (left.occurrence :: (initializer.yield ++ (condition.yield ++
        semicolon.occurrence :: (increment.yield ++ right.occurrence :: body.yield))))
      (Grammar.AfterStatement dangling) (ofClauses initializer condition increment body).tree :=
  Grammar.forStatement_accepts left semicolon right (initializer.accepted height)
    (condition.accepted height) (increment.accepted height) (body.accepted height depth)

section Means

variable {program : Program} {first last : Nat} (accepted : program.Accepted first last)
  {next : Nat} {m : Machine} (ready : m.Ready next program) {c : ForLoop} {p : Place}
  (site : ⟨c.tree, p⟩ ∈ programSites program)
include accepted ready site

/-- If the weaker run is not exhausted, both end alike. -/
theorem ends_alike {weaker : Side} {loops depth depth' : Nat}
    (allows : Comparison.Allows ⟨c.versions next p m.distances, weaker⟩ 4 depth depth')
    (finishes : weaker = .left → ¬Run.Exhausts (execute loops depth c.tree m))
    (finishes' : weaker = .right → ¬Run.Exhausts (c.direct next p loops depth' m)) :
    Run.EndAlike (m.Interchangeable next) (execute loops depth c.tree m)
      (c.direct next p loops depth' m) := by
  have closed := ready.closed
  have agree : ∀ n, n < next → (c.versions next p m.distances).distances'.find? n =
      m.distances.find? n := fun n => versions_agree p m.distances
  have bridged : Run.Bridged ⟨c.versions next p m.distances, weaker⟩ (.start m.heap m.globals) []
      Bridge.Same (execute loops depth c.tree) ((c.fresh next).run loops depth') :=
    run_bridged allows (shifts_of_site accepted ready site)
  obtain ⟨W, grows, ends⟩ := bridged _ _ _ _ _ (.refl _) (.outside closed.current)
    (closed.bridged rfl agree)
  exact ends.alike finishes finishes' fun n n' value machines fits =>
    machines.interchangeable grows closed.current agree fits

/--
The tree of a `for` statement in an accepted program, run on a machine that is ready for the program,
ends as the statement is meant. Only how deep the two nest differs.
-/
theorem tree_means (loops depth : Nat) :
    (¬Run.Exhausts (execute loops depth c.tree m) →
      Run.EndAlike (m.Interchangeable next) (execute loops depth c.tree m)
        (c.direct next p loops depth m)) ∧
    (¬Run.Exhausts (c.direct next p loops depth m) →
      Run.EndAlike (m.Interchangeable next) (execute loops (depth + 4) c.tree m)
        (c.direct next p loops depth m)) := by
  constructor
  · intro finishes
    exact ends_alike accepted ready site (.inl ⟨rfl, Nat.le_refl depth⟩) (fun _ => finishes) nofun
  · intro finishes
    exact ends_alike accepted ready site (.inr ⟨rfl, Nat.le_refl (depth + 4)⟩) nofun
      fun _ => finishes

end Means

/-- A loop whose body calls a function that has captured the variable of the loop. -/
def capturingText : String :=
  "for (var i = true; i; i = false) \x7b fun show() \x7b print i; \x7d show(); \x7d"

def capturing : ForLoop :=
  let word := fun name => (⟨.identifier, name, .nil, 1⟩ : Token)
  { initializer := some (.var (word "i") (some (.literal (.bool true))))
    condition := some (.name ⟨7, word "i"⟩)
    increment := some (.assign ⟨9, word "i"⟩ (.literal (.bool false)))
    body := .block [.function (.mk (word "show") [] [.print (.name ⟨20, word "i"⟩)]),
      .expression (.call (.name ⟨23, word "show"⟩) ⟨25, .rightParen, ")", .nil, 1⟩ [])]
    plain := rfl }

theorem capturing_parses :
    parse? 60 0 (scan capturingText).tokens = some ⟨[capturing.tree], []⟩ := by cbv

/-- The run ends with a value, after it has printed the lines. -/
def prints (run : Run Unit) (lines : Array String) (m : Machine) : Bool :=
  match run m with
  | .ok _ n => n.printed == lines
  | .error _ _ => false

theorem tree_means_capturing :
    let m := (Session.initial fun _ => 0).start [capturing.tree]
    let next := (scan capturingText).tokens.length - 1
    ∃ n n', execute 10 20 capturing.tree m = .ok () n ∧
      capturing.direct next .topLevel 10 20 m = .ok () n' ∧ m.Interchangeable next none n n' ∧
      n.printed = #["true"] := by
  intro m next
  have read : Program.Accepted 0 (0 + next) [capturing.tree] :=
    Program.accepted_of_parse capturing_parses (by decide +kernel)
  have closed := Session.initial_closed fun _ => 0
  have ready : m.Ready (0 + next) [capturing.tree] :=
    ⟨Session.start_closed closed read (Nat.le_add_right _ _),
      fun _ visited _ _ => read.distance closed.fresh visited⟩
  have site : ⟨capturing.tree, .topLevel⟩ ∈ programSites [capturing.tree] :=
    List.mem_append_left _ List.mem_cons_self
  have runs : prints (execute 10 20 capturing.tree) #["true"] m = true := by decide +kernel
  have means := tree_means read ready site 10 20
  rw [Nat.zero_add] at means
  rw [prints] at runs
  generalize execute 10 20 capturing.tree m = result at runs means
  cases result with
  | error => cases runs
  | ok a n =>
    have alike := means.1 nofun
    generalize capturing.direct next .topLevel 10 20 m = result' at alike
    cases alike with
    | ok related => exact ⟨n, _, rfl, rfl, related, beq_iff_eq.1 runs⟩

end ForLoop

end Lox
