import Lox.Proofs.Evaluation.Stability
import Lox.Proofs.Grammar.Trees
import Lox.Proofs.Scope.Positions
import Lox.Proofs.Session.Handles

/-!
# The distances of a session

The distances of all programs of a session are kept in one map, by the numbers of the occurrences.
No number is ever used for two positions. So no entry is overwritten, and the map gives the
occurrences of each program the distances that the resolver found for them, whatever ran before and
whatever runs later.
-/

namespace Lox

/-! ## The numbers of a parse -/

theorem parse?_ids {depth start : Nat} {tokens : List Token} {parsed : Parse}
    (result : parse? depth start tokens = some parsed) :
    (∀ n ∈ Subject.ids (Stmt.allSubjects parsed.statements),
      start ≤ n ∧ n < start + (tokens.takeWhile (·.kind != .endOfInput)).length) ∧
    (Subject.ids (Stmt.allSubjects parsed.statements)).Nodup := by
  have taken : TakenBetween (fun _ => True) .. := parse?_taken (fun _ _ => trivial) result
  exact ⟨taken.bounds, taken.distinct⟩

/-- Parses of different tokens have no number in common. -/
theorem parse?_apart {depth start depth' start' : Nat} {tokens tokens' : List Token}
    {parsed parsed' : Parse} (result : parse? depth start tokens = some parsed)
    (result' : parse? depth' start' tokens' = some parsed')
    (after : start + (tokens.takeWhile (·.kind != .endOfInput)).length ≤ start') :
    Program.Apart parsed.statements parsed'.statements := by
  rintro trail trail' o o' mentions mentions' same
  have bounds := (parse?_ids result).1 o.id mentions.mem_ids
  have bounds' := (parse?_ids result').1 o'.id mentions'.mem_ids
  omega

/-! ## What the resolver records -/

/-- The distance that the resolver found for the occurrence with this number. -/
def Resolution.distance? (r : Resolution) (n : Nat) : Option Nat :=
  (r.bindings.find? (·.mention.id == n)).map Binding.distance

theorem filterMap_sublist {α β : Type} {f g : α → Option β}
    (refines : ∀ x b, f x = some b → g x = some b) (items : List α) :
    (items.filterMap f).Sublist (items.filterMap g) := by
  induction items with
  | nil => exact .slnil
  | cons item rest inductionHypothesis =>
    cases found : f item with
    | some b =>
      rw [List.filterMap_cons_some found, List.filterMap_cons_some (refines item b found)]
      exact inductionHypothesis.cons_cons b
    | none =>
      rw [List.filterMap_cons_none found]
      cases found' : g item with
      | some b =>
        rw [List.filterMap_cons_some found']
        exact inductionHypothesis.cons b
      | none => rwa [List.filterMap_cons_none found']

/-- What is recorded stands in the program. -/
theorem resolve_mentions {program : Program} {b : Binding}
    (found : b ∈ (resolve program).bindings) : ∃ trail, program.Mentions trail b.mention := by
  obtain ⟨v, visited, bound, -⟩ := resolve_binding found
  have mention : v.subject.mention? = _ := (Visit.binding?_eq_some bound).1
  refine Program.exists_mentions (List.mem_filterMap.2 ⟨v.subject, ?_, by rw [mention]; rfl⟩)
  rw [← programVisits_subjects]
  exact List.mem_map_of_mem visited

/-- Where no number is used twice, the resolver records each at most once. -/
theorem resolve_distinct {program : Program}
    (distinct : (Subject.ids (Stmt.allSubjects program)).Nodup) :
    ((resolve program).bindings.map (·.mention.id)).Nodup := by
  rw [resolve_eq, List.map_filterMap]
  refine distinct.sublist ?_
  rw [← programVisits_ids]
  refine filterMap_sublist (fun v n found => ?_) _
  obtain ⟨b, bound, rfl⟩ := Option.map_eq_some_iff.1 found
  exact Visit.id?_of_mention (Visit.binding?_eq_some bound).1

namespace Distances

/-- No occurrence of the program has an entry. -/
def Lacks (D : Distances) (program : Program) : Prop :=
  ∀ trail o, program.Mentions trail o → D.find? o.id = none

/-- The occurrences of the program have the distances that the resolver found, and no others. -/
def Records (D : Distances) (program : Program) : Prop :=
  ∀ trail o, program.Mentions trail o → D.find? o.id = (resolve program).distance? o.id

/-- None of the bindings, which are added one after the other, finds an entry in its place. -/
def Admits (D : Distances) (bindings : List Binding) : Prop :=
  ∀ before b rest, bindings = before ++ b :: rest → (D.addAll before).find? b.mention.id = none

variable {D : Distances} {r : Resolution} (distinct : (r.bindings.map (·.mention.id)).Nodup)
include distinct

/-- Of occurrences that are new, the map holds what the resolver found. -/
theorem find?_addAll_new {n : Nat} (new : D.find? n = none) :
    (D.addAll r.bindings).find? n = r.distance? n := by
  rw [Resolution.distance?]
  cases found : r.bindings.find? (·.mention.id == n) with
  | none =>
    rw [find?_addAll_of_absent (by simpa using found), new]
    rfl
  | some b =>
    obtain rfl : b.mention.id = n := by simpa using List.find?_some found
    have member := List.mem_of_find?_eq_some found
    exact find?_addAll_of_mem member fun b' member' same =>
      List.inj_on_of_nodup_map distinct member' member same

theorem admits_new (new : ∀ b ∈ r.bindings, D.find? b.mention.id = none) :
    D.Admits r.bindings := by
  intro before b rest split
  rw [find?_addAll_of_absent, new b (by simp [split])]
  intro b' member same
  rw [split, List.map_append, List.nodup_append] at distinct
  exact distinct.2.2 _ (List.mem_map_of_mem member) b.mention.id (by simp) same

end Distances

/-! ## Steps of a session -/

theorem Machine.distances_stable : Stable fun m m' => m'.distances = m.distances where
  refl _ := rfl
  trans first second := second.trans first
  heap _ _ _ := rfl
  printed _ _ := rfl
  readings _ := rfl
  inside _ within := within

namespace Session

/-- A run adds the distances of its program, and nothing that it executes changes them. -/
theorem close_distances (limits : Limits) (s : Session) (source : String) (program : Program) :
    (s.close source (interpret limits.loops limits.depth program
      (s.start program)).2).machine.distances = s.machine.distances.addAll (resolve program).bindings :=
  Machine.distances_stable.interpret limits.loops limits.depth program (s.start program)

/-- Numbers only grow, and what is recorded of those that are given stays. -/
structure Extends (s s' : Session) : Prop where
  numbers : s.nextToken ≤ s'.nextToken
  recorded : ∀ n < s.nextToken, s'.machine.distances.find? n = s.machine.distances.find? n

theorem extends_invariant (s : Session) : Invariant s.Extends where
  define grown _ _ _ := ⟨grown.numbers, grown.recorded⟩
  run {s'} grown limits source program accepted := by
    have numbers := grown.numbers
    refine ⟨numbers.trans (Nat.le_add_right _ _), fun n below => ?_⟩
    rw [close_distances, (accepted?_sound accepted).distance_outside (.inl (by omega))]
    exact grown.recorded n below

theorem steps_extend (s : Session) (later : List Step) : s.Extends (later.foldl step s) :=
  s.extends_invariant.steps ⟨Nat.le_refl _, fun _ _ => rfl⟩ later

/-- No number of a text that is still to run has an entry. -/
theorem after_lacks (clock : Nat → Float) (steps : List Step) {depth : Nat} {tokens : List Token}
    {parsed : Parse} (result : parse? depth (after clock steps).nextToken tokens = some parsed) :
    (after clock steps).machine.distances.Lacks parsed.statements := fun _ o mentions =>
  (after_closed clock steps).fresh o.id ((parse?_ids result).1 o.id mentions.mem_ids).1

section Accepted

variable {clock : Nat → Float} {earlier : List Step} {limits : Limits} {source : String}
  {program : Program}
  (accepted : (after clock earlier).accepted? limits source = some program)
include accepted

theorem start_records : ((after clock earlier).start program).distances.Records program := by
  have clean := accepted?_eq_some_iff.1 accepted
  intro trail o mentions
  exact Distances.find?_addAll_new (resolve_distinct (parse?_ids clean.parsed).2)
    (after_lacks clock earlier clean.parsed trail o mentions)

theorem start_admits :
    (after clock earlier).machine.distances.Admits (resolve program).bindings := by
  have read := accepted?_sound accepted
  refine Distances.admits_new (resolve_distinct read.read.distinct) fun b found => ?_
  obtain ⟨v, visited, -, id⟩ := resolve_binding found
  exact (after_closed clock earlier).fresh _ (read.bounds visited id).1

/-- The session when the run of the program has ended. -/
theorem after_accepted (later : List Step) :
    after clock (earlier ++ .run limits source :: later) =
      later.foldl step ((after clock earlier).close source
        (interpret limits.loops limits.depth program ((after clock earlier).start program)).2) := by
  rw [← (run_accepted accepted).1]
  exact List.foldl_append

/-- The numbers of a text that was accepted lie below those that are given later. -/
theorem below_close {n : Nat} (found : n ∈ Subject.ids (Stmt.allSubjects program))
    (machine : Machine) : n < ((after clock earlier).close source machine).nextToken :=
  ((accepted?_sound accepted).read.bounds n found).2

theorem below_later (later : List Step) {n : Nat}
    (found : n ∈ Subject.ids (Stmt.allSubjects program)) :
    n < (after clock (earlier ++ .run limits source :: later)).nextToken := by
  rw [after_accepted accepted]
  exact Nat.lt_of_lt_of_le (below_close accepted found _) (steps_extend _ later).numbers

theorem after_records (later : List Step) :
    (after clock (earlier ++ .run limits source :: later)).machine.distances.Records program := by
  intro trail o mentions
  rw [after_accepted accepted,
    (steps_extend _ later).recorded o.id (below_close accepted mentions.mem_ids _), close_distances]
  exact start_records accepted trail o mentions

end Accepted

end Session

/--
Whatever tokens are parsed, no number stands at two positions of the statements that result, and no
number of theirs in what is parsed from later tokens. So the resolver records an occurrence at most
once. In a session no number of a text has an entry before it runs, and a text that is rejected,
whose numbers are given again, leaves none. One that is accepted overwrites no entry, and from then
on the map holds for the occurrences of its program just what the resolver found; nothing that is
parsed later has a number of theirs.
-/
theorem distances_unambiguous :
    (∀ depth start tokens parsed, parse? depth start tokens = some parsed →
      Program.Unambiguous parsed.statements ∧
      ((resolve parsed.statements).bindings.map (·.mention.id)).Nodup ∧
      (∀ b ∈ (resolve parsed.statements).bindings,
        ∃ trail, Program.Mentions parsed.statements trail b.mention) ∧
      ∀ depth' start' tokens' parsed', parse? depth' start' tokens' = some parsed' →
        start + (tokens.takeWhile (·.kind != .endOfInput)).length ≤ start' →
        Program.Apart parsed.statements parsed'.statements) ∧
    ∀ (clock : Nat → Float) (earlier : List Session.Step) (limits : Limits) (source : String),
      let s := Session.after clock earlier
      (∀ depth tokens parsed, parse? depth s.nextToken tokens = some parsed →
        s.machine.distances.Lacks parsed.statements) ∧
      (s.accepted? limits source = none → (s.run limits source).2 = s) ∧
      ∀ program, s.accepted? limits source = some program →
        s.machine.distances.Admits (resolve program).bindings ∧
        (s.start program).distances.Records program ∧
        ∀ later, let s' := Session.after clock (earlier ++ .run limits source :: later)
          s'.machine.distances.Records program ∧
          ∀ depth tokens parsed, parse? depth s'.nextToken tokens = some parsed →
            Program.Apart program parsed.statements := by
  refine ⟨fun depth start tokens parsed result => ?_, fun clock earlier limits source => ?_⟩
  · have distinct := (parse?_ids result).2
    exact ⟨Program.unambiguous distinct, resolve_distinct distinct, fun _ => resolve_mentions,
      fun _ _ _ _ result' => parse?_apart result result'⟩
  · intro s
    refine ⟨fun _ _ _ result => Session.after_lacks clock earlier result, Session.run_rejected,
      fun program accepted => ?_⟩
    · refine ⟨Session.start_admits accepted, Session.start_records accepted, fun later => ?_⟩
      refine ⟨Session.after_records accepted later, fun depth tokens parsed result => ?_⟩
      rintro trail trail' o o' mentions mentions' same
      -- The numbers of the program lie below, and those of what is parsed later above.
      have below := Session.below_later accepted later mentions.mem_ids
      have above := (parse?_ids result).1 o'.id mentions'.mem_ids
      omega

/-- A loop whose clauses are moved, assignments to properties, and methods of a subclass. -/
def looped : String :=
  "class A \x7b init(x) \x7b this.x = x; \x7d \x7d " ++
    "class B < A \x7b init(x) \x7b super.init(x); \x7d \x7d " ++
    "\x7b var b = B(0); for (var i = 1; i < 3; i = i + 1) b.x = b.x + i; print b.x; \x7d"

/-- Some runs of the text. -/
def loopedRuns (count : Nat) : List Session.Step :=
  .replicate count (.run ⟨60, 60, 60, 60⟩ looped)

theorem distances_unambiguous_looped :
    ∃ program, (Session.after (fun _ => 0) (loopedRuns 1)).accepted? ⟨60, 60, 60, 60⟩ looped =
        some program ∧
      program.Unambiguous ∧ (resolve program).bindings.length = 11 ∧
      (∃ b ∈ (resolve program).bindings, ∃ trail, program.Mentions trail b.mention) ∧
      (Session.after (fun _ => 0) (loopedRuns 3)).machine.distances.Records program := by
  have computed : ((Session.after (fun _ => 0) (loopedRuns 1)).accepted? ⟨60, 60, 60, 60⟩
      looped).any (fun program => (resolve program).bindings.length == 11) = true := by
    decide +kernel
  obtain ⟨program, accepted, count⟩ := (Option.any_eq_true ..).1 computed
  have count : (resolve program).bindings.length = 11 := by simpa using count
  have bound : 0 < (resolve program).bindings.length := by omega
  obtain ⟨b, found⟩ := List.exists_mem_of_length_pos bound
  have clean := Session.accepted?_eq_some_iff.1 accepted
  have runs : loopedRuns 3 = loopedRuns 1 ++ .run ⟨60, 60, 60, 60⟩ looped :: loopedRuns 1 := rfl
  obtain ⟨parses, sessions⟩ := distances_unambiguous
  obtain ⟨unambiguous, -, mentioned, -⟩ := parses _ _ _ _ clean.parsed
  obtain ⟨-, -, accepts⟩ := sessions (fun _ => 0) (loopedRuns 1) ⟨60, 60, 60, 60⟩ looped
  obtain ⟨-, -, kept⟩ := accepts program accepted
  rw [runs]
  exact ⟨program, accepted, unambiguous, count, ⟨b, found, mentioned b found⟩,
    (kept (loopedRuns 1)).1⟩

end Lox
