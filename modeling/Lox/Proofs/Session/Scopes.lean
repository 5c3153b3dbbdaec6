import Lox.Proofs.Session.Chronicle

/-!
# Environments match scopes

Whenever an occurrence is looked up, in whatever run of a session and however its function came to be
called, the chain of environments matches the scopes that the resolver saw around that occurrence. So a
recorded distance leads to the environment that was made for the scope that the resolver meant.
-/

namespace Lox

/-! ## Chains that correspond to levels -/

namespace Heap

variable {h : Heap} {globals e : EnvironmentId} {pending : Option String} {levels : List Level}

theorem ancestor?_add (h : Heap) (e : EnvironmentId) (n k : Nat) :
    h.ancestor? e (n + k) = (h.ancestor? e n).bind fun a => h.ancestor? a k := by
  induction n generalizing e with
  | zero => simp [ancestor?]
  | succ n inductionHypothesis =>
    rw [Nat.succ_add, ancestor?, ancestor?]
    cases (h.environmentAt e).enclosing with
    | none => rfl
    | some outer => exact inductionHypothesis outer

/-- No environment lies further out than the outermost one. -/
theorem ancestor?_outermost {a b : EnvironmentId} {n k : Nat} (found : h.ancestor? e n = some a)
    (outermost : (h.environmentAt a).enclosing = none) (found' : h.ancestor? e k = some b) :
    k ≤ n := by
  by_contra further
  obtain ⟨rest, rfl⟩ := Nat.exists_eq_add_of_lt (Nat.lt_of_not_le further)
  rw [Nat.add_assoc, ancestor?_add, found, Option.bind_some, ancestor?, outermost] at found'
  cases found'

theorem Corresponds.outermost (corresponds : h.Corresponds globals pending e levels) :
    h.ancestor? e levels.length = some globals ∧ (h.environmentAt globals).enclosing = none := by
  induction levels generalizing e pending with
  | nil =>
    obtain ⟨rfl, enclosing⟩ := corresponds
    exact ⟨rfl, enclosing⟩
  | cons level outer inductionHypothesis =>
    obtain ⟨-, -, next, enclosing, rest⟩ := corresponds
    rw [List.length_cons, ancestor?, enclosing]
    exact inductionHypothesis rest

/-- The globals lie just as many steps out as there are levels. -/
theorem Corresponds.depth (corresponds : h.Corresponds globals pending e levels) (n : Nat) :
    h.ancestor? e n = some globals ↔ n = levels.length := by
  obtain ⟨found, outermost⟩ := corresponds.outermost
  refine ⟨fun found' => ?_, fun same => same ▸ found⟩
  exact Nat.le_antisymm (ancestor?_outermost found outermost found')
    (ancestor?_outermost found' outermost found)

/-- The environment at a distance and the level there. -/
theorem Corresponds.level (corresponds : h.Corresponds globals pending e levels) {k : Nat}
    {level : Level} (there : levels[k]? = some level) :
    ∃ a, h.ancestor? e k = some a ∧
      (∀ x, level.scope.find? x = some true →
        (h.environmentAt a).names.contains x = true ∨ (k = 0 ∧ pending = some x)) ∧
      ∀ x, (h.environmentAt a).names.contains x = true → x ∈ level.origin.names := by
  induction levels generalizing e pending k with
  | nil => cases there
  | cons first outer inductionHypothesis =>
    obtain ⟨holds, declared, next, enclosing, rest⟩ := corresponds
    cases k with
    | zero =>
      obtain rfl := Option.some.inj there
      exact ⟨e, rfl, fun x flagged => (holds x flagged).symm.imp_right fun here => ⟨rfl, here⟩, declared⟩
    | succ k =>
      obtain ⟨a, found, holds', declared'⟩ := inductionHypothesis rest there
      refine ⟨a, ?_, fun x flagged => ?_, declared'⟩
      · rw [ancestor?, enclosing]
        exact found
      -- Only the innermost environment may still wait for a name.
      · exact (holds' x flagged).imp_right fun innermost => by cases innermost.2

end Heap

/-! ## Reads -/

/-- What is read is not in its own initializer. -/
theorem Visit.read_settled {v : Visit} (lawful : v.Lawful) (faultless : v.faults = [])
    {form : MentionForm} {o : Occurrence} (mention : v.mention? = some (form, o))
    (reads : form ≠ .assignment) :
    v.place.inOwnInitializer o.name = false ∧ v.pending? ≠ some o.name := by
  obtain ⟨subject, place⟩ := v
  have spelled := lawful.spelled
  have regular := lawful.regular
  cases subject with
  | declaration | result => cases mention
  | superclass className o' =>
    obtain ⟨-, rfl⟩ := Prod.mk.inj (Option.some.inj mention)
    simp only [faults, List.append_eq_nil_iff] at faultless
    refine ⟨by simpa using faultless.2, fun same => ?_⟩
    simp [Option.some.inj same] at faultless
  | mention form' o' =>
    obtain ⟨rfl, rfl⟩ := Prod.mk.inj (Option.some.inj mention)
    refine ⟨?_, by rintro ⟨⟩⟩
    cases form' with
    | «variable» => simpa [faults] using faultless
    | assignment => exact absurd rfl reads
    -- No variable has an implicit name, so this is no initializer of one.
    | this => exact regular.inOwnInitializer fun ordinary => ordinary.1 spelled
    | super => exact regular.inOwnInitializer fun ordinary => ordinary.2 spelled

/-- The scope at the distance of a name. -/
theorem Place.level_of_distance {p : Place} {name : String} {d : Nat}
    (tail : ∀ level ∈ p.levels.tail, level.scope.Settled) (read : p.inOwnInitializer name = false)
    (distance : p.distance? name = some d) :
    ∃ level, p.levels[d]? = some level ∧ level.scope.find? name = some true := by
  obtain ⟨before, level, after, split, rfl, present, -⟩ := Place.distance?_eq_some distance
  exact ⟨level, by rw [split]; simp, Place.complete_of_distance tail read split present⟩

/-- A read with a distance finds the name in the environment there. -/
theorem Visit.LookedUp.read {v : Visit} {earlier : List Moment} {form : MentionForm} {o : Occurrence}
    {m : Machine} (lookedUp : v.LookedUp earlier form o m) (lawful : v.Lawful)
    (faultless : v.faults = []) (reads : form ≠ .assignment) {d : Nat}
    (recorded : m.distances.find? o.id = some d) :
    ∃ value, m.heap.lookUpAt m.current d o.name = .ok value := by
  obtain ⟨read, other⟩ := v.read_settled lawful faultless lookedUp.mention reads
  rw [lookedUp.distance] at recorded
  obtain ⟨level, there, flagged⟩ := Place.level_of_distance lookedUp.tail read recorded
  obtain ⟨a, ancestor, holds, -⟩ := lookedUp.chain.level there
  have present := (holds o.name flagged).resolve_right fun innermost => other innermost.2
  obtain ⟨value, found⟩ := Option.isSome_iff_exists.1 present
  exact ⟨value, Heap.lookUpAt_of_found ancestor found⟩

/-! ## Every lookup of a session -/

/-- Each lookup in the account of a session is one that the resolver came to, at one place only. -/
theorem TracedSession.Sound.lookedUp {s : TracedSession} (sound : s.Sound)
    {later earlier : List Moment} {form : MentionForm} {o : Occurrence} {m : Machine}
    (split : s.moments = later ++ .mention form o m :: earlier) :
    ∃ v ∈ s.visits, v.LookedUp earlier form o m := by
  obtain ⟨W, store, related⟩ := sound.related
  have chronicled := related.sound.chronicled
  rw [← related.moments, split] at chronicled
  exact chronicled.good

/-- The environments around a machine match the scopes that were open at a visit. -/
structure Visit.Matches (v : Visit) (m : Machine) : Prop where
  /-- The globals lie just as many steps out as there are scopes. -/
  depth : ∀ n, m.heap.ancestor? m.current n = some m.globals ↔ n = v.place.scopes.length
  /--
  The environment `k` steps out holds the names that are complete in scope `k`, but for the name of a
  class while its superclass is looked up, and only names that the text of the scope declares.
  -/
  environments : ∀ k level, v.place.levels[k]? = some level →
    ∃ e, m.heap.ancestor? m.current k = some e ∧
      (∀ x, level.scope.find? x = some true →
        (m.heap.environmentAt e).names.contains x = true ∨
          (k = 0 ∧ ∃ className mention,
            v.subject = .superclass className mention ∧ x = className.lexeme)) ∧
      ∀ x, (m.heap.environmentAt e).names.contains x = true → x ∈ level.origin.names

theorem Visit.LookedUp.matches {v : Visit} {earlier : List Moment} {form : MentionForm}
    {o : Occurrence} {m : Machine} (lookedUp : v.LookedUp earlier form o m) : v.Matches m := by
  refine ⟨fun n => ?_, fun k level there => ?_⟩
  · rw [Place.scopes, List.length_map]
    exact lookedUp.chain.depth n
  · obtain ⟨e, ancestor, holds, declared⟩ := lookedUp.chain.level there
    refine ⟨e, ancestor, fun x flagged => (holds x flagged).imp_right fun found => ?_, declared⟩
    obtain ⟨innermost, pending⟩ := found
    refine ⟨innermost, ?_⟩
    obtain ⟨subject, place⟩ := v
    cases subject with
    | superclass className mention => exact ⟨className, mention, rfl, (Option.some.inj pending).symm⟩
    | _ => cases pending

/--
Whenever an occurrence is looked up, the environments match the scopes at the one place where the
resolver came to it; the distance is the one from there, and a read at that distance finds the name.
-/
theorem environments_match_scopes (clock : Nat → Float) (steps : List Session.Step)
    {later earlier : List Moment} {form : MentionForm} {o : Occurrence} {m : Machine}
    (lookedUp : (TracedSession.after clock steps).moments =
      later ++ .mention form o m :: earlier) :
    ∃ v ∈ (TracedSession.after clock steps).visits,
      v.mention? = some (form, o) ∧
      (∀ v' ∈ (TracedSession.after clock steps).visits, v'.id? = some o.id → v' = v) ∧
      v.Matches m ∧
      m.distances.find? o.id = v.place.distance? o.name ∧
      (form ≠ .assignment → ∀ d : Nat, m.distances.find? o.id = some d →
        ∃ value, m.heap.lookUpAt m.current d o.name = .ok value) := by
  have sound := TracedSession.after_sound clock steps
  obtain ⟨v, visited, here⟩ := sound.lookedUp lookedUp
  refine ⟨v, visited, here.mention, fun v' visited' id' => ?_, here.matches, here.distance,
    fun reads d recorded => ?_⟩
  · exact sound.unique v' visited' v visited o.id id' (Visit.id?_of_mention here.mention)
  · exact here.read (sound.ruled.lawful v visited) (sound.ruled.faultless v visited) reads recorded

/-! ## A session -/

/-- The form of the mention that a moment tells of. -/
def Moment.form? : Moment → Option MentionForm
  | .mention form _ _ => some form
  | _ => none

theorem TracedSession.exists_mention {s : TracedSession} {form : MentionForm}
    (found : s.moments.any (·.form? = some form) = true) :
    ∃ later o m earlier, s.moments = later ++ .mention form o m :: earlier := by
  obtain ⟨moment, member, same⟩ := List.any_eq_true.1 found
  obtain ⟨later, earlier, split⟩ := List.append_of_mem member
  cases moment with
  | mention form' o m =>
    obtain rfl : form' = form := Option.some.inj (of_decide_eq_true same)
    exact ⟨later, o, m, earlier, split⟩
  | _ => simp [Moment.form?] at same

/-- A function inside a method of a subclass calls the method of the superclass. -/
def superCall : List Session.Step :=
  [.run ⟨100, 100, 100, 100⟩
    ("class A \x7b m() \x7b return this; \x7d \x7d class B < A \x7b m() \x7b " ++
      "fun f() \x7b return super.m(); \x7d return f(); \x7d \x7d print B().m();")]

theorem environments_match_scopes_superCall :
    ∃ later earlier o m, (TracedSession.after (fun _ => 0) superCall).moments =
        later ++ .mention .super o m :: earlier ∧
      m.heap.ancestor? m.current 4 = some m.globals := by
  obtain ⟨later, o, m, earlier, split⟩ : ∃ later o m earlier,
      (TracedSession.after (fun _ => 0) superCall).moments =
        later ++ .mention .super o m :: earlier :=
    TracedSession.exists_mention (by decide +kernel)
  have four : ∀ v ∈ (TracedSession.after (fun _ => 0) superCall).visits,
      v.mention?.map (·.1) = some .super → v.place.scopes.length = 4 := by decide +kernel
  obtain ⟨v, visited, mention, -, around, -⟩ := environments_match_scopes _ _ split
  exact ⟨later, earlier, o, m, split,
    (around.depth 4).2 (four v visited (by rw [mention]; rfl)).symm⟩

end Lox
