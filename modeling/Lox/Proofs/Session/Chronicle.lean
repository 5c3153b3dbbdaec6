import Lox.Proofs.Grammar.Trees
import Lox.Proofs.Lockstep.Programs
import Lox.Proofs.Scope.Bindings
import Lox.Proofs.Text.Spelling
import Lox.Proofs.Trace.Sessions

/-!
# What holds in every session

After any history, the machine of a session is related to some lexical store, and the account of all runs
is right about each lookup. Functions that earlier programs declared run by the distances of those
programs, which later programs leave alone.
-/

namespace Lox

open Lexical (CellId Names Store)

variable {V : Visit → Prop} {D : Distances}

/-! ## Accepted texts -/

theorem faultless_of_resolve {program : Program} (accepted : (resolve program).errors = []) :
    ∀ v ∈ programVisits program, v.faults = [] := by
  rw [resolve_eq] at accepted
  exact List.flatMap_eq_nil_iff.1 accepted

/-- A program that is read from a scanned text and resolved without fault is accepted. -/
theorem Program.accepted_of_parse {source : String} {nesting start : Nat} {parsed : Parse}
    (result : parse? nesting start (scan source).tokens = some parsed)
    (accepted : (resolve parsed.statements).errors = []) :
    Program.Accepted start (start + ((scan source).tokens.length - 1)) parsed.statements := by
  obtain ⟨read, placed⟩ := parse?_reads (scan_spelled source) result
  have length := scan_takeWhile_length source
  exact ⟨read.widen (Nat.le_refl _) (by omega), placed, faultless_of_resolve accepted⟩

theorem Session.accepted?_sound {limits : Limits} {s : Session} {source : String}
    {program : Program} (accepted : s.accepted? limits source = some program) :
    program.Accepted s.nextToken (s.nextToken + ((scan source).tokens.length - 1)) := by
  have clean := accepted?_eq_some_iff.1 accepted
  exact Program.accepted_of_parse clean.parsed clean.resolved

/-! ## More programs -/

theorem World.Sound.more {V' : Visit → Prop} (more : ∀ v, V v → V' v) {W : World}
    (sound : W.Sound V) : W.Sound V' :=
  { sound with
    functions := fun f code known =>
      let old := sound.functions f code known
      { old with visited := fun v here => more v (old.visited v here) }
    chronicled := sound.chronicled.mono more }

/-! ## The first world -/

/-- The world of a machine on which nothing has run. -/
def World.initial : World :=
  ⟨⟨0⟩, fun _ => none, fun _ => none, fun _ => none, fun _ => none, []⟩

theorem World.initial_sound : World.initial.Sound V where
  globals := rfl
  separate := by rintro _ _ _ _ _ _ _ ⟨⟩
  frames := by rintro _ _ ⟨⟩
  functions := by rintro _ _ ⟨⟩
  classes := by rintro _ _ ⟨⟩
  instances := by rintro _ _ ⟨⟩
  chronicled := trivial

theorem World.initial_real (clock : Nat → Float) :
    World.initial.Real (Machine.initial clock).heap (Store.initial clock) where
  frames := by rintro _ _ ⟨⟩
  globals := Nat.one_pos
  globalNames := rfl
  functions := by rintro _ _ ⟨⟩
  classes := by rintro _ _ ⟨⟩
  instances := by rintro _ _ ⟨⟩
  cellsFit := fun _ => trivial
  globalsFit := fun x v found => by
    rw [Store.initial, Table.find?_insert] at found
    split at found
    · exact Option.some.inj found ▸ trivial
    · cases found
  fieldsFit := by rintro i x v ⟨⟩

/-- A new machine and a new store are related, whatever distances are recorded. -/
theorem Related.initial (clock : Nat → Float) (D : Distances) :
    Related V D .initial ⟨{ Machine.initial clock with distances := D }, []⟩
      (Store.initial clock) where
  sound := World.initial_sound
  real := World.initial_real clock
  alike := ⟨rfl, Array.map_empty.trans Array.map_empty.symm, rfl, rfl⟩
  natives := by
    intro n member
    obtain rfl : n = ⟨"clock", 0, .clock⟩ := by simpa [Store.initial] using member
    rfl
  globals := rfl
  distances := rfl
  moments := rfl
  printed := rfl
  clock := rfl
  readings := rfl

/-- Where a program starts, in the environment of the globals. -/
theorem World.stands_topLevel {W : World} {e : EnvironmentId} (outermost : e = W.globals) :
    W.Stands e .topLevel .global :=
  ⟨⟨outermost, fun _ => rfl⟩, ⟨fun _ => rfl, fun _ => rfl⟩, by rintro _ _ _ ⟨⟩,
    by rintro _ ⟨⟩⟩

/-! ## Every history -/

/-- What every step of a session keeps. -/
structure TracedSession.Sound (s : TracedSession) : Prop where
  related : ∃ W store, Related (· ∈ s.visits) s.session.machine.distances W
    ⟨s.session.machine, s.moments⟩ store
  current : s.session.machine.current = s.session.machine.globals
  ruled : Ruled (· ∈ s.visits) s.session.machine.distances
  older : ∀ v ∈ s.visits, ∀ n, v.id? = some n → n < s.session.nextToken
  new : ∀ n, s.session.nextToken ≤ n → s.session.machine.distances.find? n = none
  unique : ∀ v ∈ s.visits, ∀ v' ∈ s.visits, ∀ n, v.id? = some n → v'.id? = some n → v = v'

theorem TracedSession.initial_sound (clock : Nat → Float) :
    (TracedSession.initial clock).Sound where
  related := ⟨.initial, .initial clock, Related.initial clock .empty⟩
  current := rfl
  ruled := ⟨by rintro _ ⟨⟩, by rintro _ ⟨⟩, by rintro _ _ _ ⟨⟩⟩
  older := by rintro _ ⟨⟩
  new := fun n _ => Distances.find?_empty n
  unique := by rintro _ ⟨⟩

theorem TracedSession.Sound.define {s : TracedSession} (sound : s.Sound) (name : String)
    {value : Value} (scalar : value.IsScalar) : (s.step (.define name value scalar)).Sound := by
  obtain ⟨W, store, related⟩ := sound.related
  have real := related.real.defineGlobal related.sound.globals name (scalar.fits W)
  rw [← related.globals] at real
  exact { sound with
    related := ⟨W, { store with globals := store.globals.insert name value },
      { related with real := real, alike := { related.alike with } }⟩ }

section Run

variable {s : TracedSession} (sound : s.Sound) {last : Nat} {program : Program}
  (accepted : program.Accepted s.session.nextToken last)
include sound accepted

/-- The programs so far and one more may run by the distances with those of the new one. -/
theorem TracedSession.Sound.ruled_start :
    Ruled (· ∈ programVisits program ++ s.visits) (s.session.start program).distances := by
  refine ⟨fun v visited => ?_, fun v visited => ?_, fun v form o visited mention => ?_⟩
  · rcases List.mem_append.1 visited with new | old
    · exact accepted.lawful v new
    · exact sound.ruled.lawful v old
  · rcases List.mem_append.1 visited with new | old
    · exact accepted.faultless v new
    · exact sound.ruled.faultless v old
  · rcases List.mem_append.1 visited with new | old
    · exact accepted.distance sound.new new mention
    · have id := Visit.id?_of_mention mention
      exact (accepted.distance_outside (.inl (sound.older v old o.id id))).trans
        (sound.ruled.distance v form o old mention)

/-- The run of an accepted program ends in related states, as it ends lexically. -/
theorem TracedSession.Sound.runs (loops depth : Nat) :
    ∃ (store : Store) (j : Joint (· ∈ programVisits program ++ s.visits)
        (s.session.start program).distances),
      (NotedRun.interpret Moment.scribe loops depth program
        ⟨s.session.start program, s.moments⟩).2 = j.traced ∧
      j.current = j.traced.machine.globals ∧
      j.Ended (NotedRun.interpret Moment.scribe loops depth program
        ⟨s.session.start program, s.moments⟩).1 (Lexical.interpret loops depth program store) := by
  obtain ⟨W, store, related⟩ := sound.related
  -- The run starts from what the session left, with the visits of the program added.
  let start : Joint (· ∈ programVisits program ++ s.visits) (s.session.start program).distances :=
    { world := W
      traced := ⟨s.session.start program, s.moments⟩
      store := { store with printed := #[] }
      related :=
        { related with
          sound := related.sound.more fun v old => List.mem_append_right _ old
          real := { related.real with
            frames := fun e frame known => (related.real.frames e frame known).congr rfl rfl }
          alike := { related.alike with }
          distances := rfl
          printed := rfl } }
  have outermost : start.current = W.globals := sound.current.trans related.globals
  obtain ⟨j, before, traced, ended⟩ := start.interpret_lockstep (sound.ruled_start accepted) loops
    depth (World.stands_topLevel outermost) accepted.placed fun v new => List.mem_append_left _ new
  refine ⟨_, j, traced, ?_, ended⟩
  rw [before.current, outermost, j.related.globals, before.world.globals]

theorem TracedSession.Sound.execute (limits : Limits) {source : String}
    (length : last = s.session.nextToken + ((scan source).tokens.length - 1)) :
    (s.execute limits source program).2.Sound := by
  subst length
  obtain ⟨_, j, traced, current, -⟩ := sound.runs accepted limits.loops limits.depth
  have related := j.related
  have ruled := sound.ruled_start accepted
  rw [← related.distances] at ruled
  rw [TracedSession.execute]
  dsimp only
  rw [traced]
  have visits : TracedSession.visits ⟨s.session.close source j.traced.machine, j.traced.notes,
      program :: s.programs⟩ = programVisits program ++ s.visits := List.flatMap_cons ..
  refine ⟨⟨j.world, { j.store with printed := #[] }, ?_⟩, current, ?_, ?_, fun n above => ?_, ?_⟩
  · -- Between runs nothing is printed, and so the store of the next run starts with no line.
    rw [visits]
    exact { related with
      real := { related.real with
        frames := fun e frame known => (related.real.frames e frame known).congr rfl rfl }
      alike := { related.alike with }
      distances := rfl
      printed := rfl }
  · rw [visits]
    exact ruled
  · rw [visits]
    intro v visited n id
    rcases List.mem_append.1 visited with new | old
    · exact (accepted.bounds new id).2
    · exact Nat.lt_add_right _ (sound.older v old n id)
  · -- Numbers behind the text are those of tokens to come, of which none has a distance.
    have above' : s.session.nextToken + ((scan source).tokens.length - 1) ≤ n := above
    change j.traced.machine.distances.find? n = none
    rw [related.distances]
    exact (accepted.distance_outside (.inr above')).trans (sound.new n (by omega))
  · -- Old and new visits have different numbers, for those of the new ones lie above.
    rw [visits]
    intro v visited v' visited' n id id'
    rcases List.mem_append.1 visited with new | old
    · rcases List.mem_append.1 visited' with new' | old'
      · exact accepted.unique new new' id id'
      · exact absurd (sound.older v' old' n id') (Nat.not_lt.2 (accepted.bounds new id).1)
    · rcases List.mem_append.1 visited' with new' | old'
      · exact absurd (sound.older v old n id) (Nat.not_lt.2 (accepted.bounds new' id').1)
      · exact sound.unique v old v' old' n id id'

end Run

theorem TracedSession.Sound.step {s : TracedSession} (sound : s.Sound) (step : Session.Step) :
    (s.step step).Sound := by
  cases step with
  | define name value scalar => exact sound.define name scalar
  | run limits source =>
    rw [TracedSession.step]
    cases accepted : s.session.accepted? limits source with
    | none => exact sound
    | some program => exact sound.execute (Session.accepted?_sound accepted) limits rfl

/-- Every history keeps a session sound. -/
theorem TracedSession.after_sound (clock : Nat → Float) (steps : List Session.Step) :
    (TracedSession.after clock steps).Sound := by
  induction steps using List.reverseRecOn with
  | nil => exact TracedSession.initial_sound clock
  | append_singleton steps last inductionHypothesis =>
    rw [TracedSession.after_concat]
    exact inductionHypothesis.step last

end Lox
