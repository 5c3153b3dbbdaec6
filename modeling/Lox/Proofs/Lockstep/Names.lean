import Lox.Proofs.Lockstep.Growth

/-!
# Names in step

Declaring a name makes a cell in the store and an entry in the environment that is running. Looking a
name up, and assigning to it, finds the cell and the entry that belong together: the distance that the
resolver recorded leads to the environment of the scope in which the name of the map was declared.
-/

namespace Lox

open Lexical (CellId Names Store LexicalRun)

variable {V : Visit → Prop} {D : Distances} {α β : Type}

theorem Table.contains_insert_of_contains {α : Type} {t : Table α} {name other : String} {value : α}
    (present : t.contains other = true) : (t.insert name value).contains other = true := by
  rw [contains_insert, present, Bool.or_true]

/-- The two stores differ in nothing but names and objects. -/
structure Lexical.Store.Keeps (s s' : Store) : Prop where
  natives : s'.natives = s.natives
  printed : s'.printed = s.printed
  clock : s'.clock = s.clock
  readings : s'.readings = s.readings
  globals : ∀ x, s.globals.contains x = true → s'.globals.contains x = true

/-- A step of both runs that changes heap and store. -/
theorem Joint.Lockstep.change {j : Joint V D} {o : Option EnvironmentId} {run : TracedRun α}
    {reference : LexicalRun β} {Q : Joint V D → α → β → Prop} {W : World} {h : Heap} {s : Store}
    {a : α} {b : β}
    (left : run j.traced = .ok a ⟨{ j.traced.machine with heap := h }, W.moments⟩)
    (right : reference j.store = .ok b s) (later : j.world.Extends o W) (sound : W.Sound V)
    (real : W.Real h s) (alike : h.Alike s) (keeps : j.store.Keeps s)
    (holds : ∀ j' : Joint V D, j'.world = W → j'.current = j.current → j'.store = s → Q j' a b) :
    j.Lockstep o run reference Q := by
  have related := j.related
  refine .inl ⟨a, b, ⟨W, ⟨{ j.traced.machine with heap := h }, W.moments⟩, s, ?_⟩, left, right,
    ⟨later, rfl, keeps.globals⟩, holds _ rfl rfl rfl⟩
  exact ⟨sound, real, alike, keeps.natives ▸ related.natives,
    related.globals.trans later.globals.symm, related.distances, rfl,
    keeps.printed.trans related.printed, keeps.clock.trans related.clock,
    keeps.readings.trans related.readings⟩

/-! ## Declarations -/

theorem World.Sound.addName {W : World} (sound : W.Sound V) {e : EnvironmentId} {frame : Frame}
    (known : W.frames e = some frame) {name : String} (absent : frame.cells name = none)
    (declared : name ∈ frame.kind.origin.names) {c : CellId}
    (unused : ∀ e frame x, W.frames e = some frame → frame.cells x ≠ some c) :
    (W.addFrame e (frame.addName name c)).Sound V := by
  have later := Extends.addName known absent c
  -- A cell of the new world is the new one, or lies where it lay before.
  have cases : ∀ e' frame' x c', (W.addFrame e (frame.addName name c)).frames e' = some frame' →
      frame'.cells x = some c' → (e' = e ∧ x = name ∧ c' = c) ∨
        ∃ old, W.frames e' = some old ∧ old.cells x = some c' := by
    intro e' frame' x c' known' found
    rcases update_eq_some known' with ⟨rfl, rfl⟩ | ⟨-, old⟩
    · rcases update_eq_some found with ⟨rfl, rfl⟩ | ⟨-, found⟩
      · exact .inl ⟨rfl, rfl, rfl⟩
      · exact .inr ⟨frame, known, found⟩
    · exact .inr ⟨frame', old, found⟩
  refine sound.extend later ?_ ?_ (fun e' frame' known' => ?_) (fun _ _ known => .inl known)
    (fun _ _ known => .inl known) (fun _ _ known => .inl known) sound.chronicled
  · exact (Function.update_of_ne (World.ne_globals sound.globals known).symm ..).trans sound.globals
  · intro e₁ e₂ frame₁ frame₂ x₁ x₂ c' known₁ known₂ found₁ found₂
    rcases cases e₁ frame₁ x₁ c' known₁ found₁ with ⟨he₁, hx₁, new₁⟩ | ⟨old₁, before₁, there₁⟩
    · rcases cases e₂ frame₂ x₂ c' known₂ found₂ with ⟨he₂, hx₂, -⟩ | ⟨old₂, before₂, there₂⟩
      · exact ⟨he₁.trans he₂.symm, hx₁.trans hx₂.symm⟩
      · exact absurd (new₁ ▸ there₂) (unused e₂ old₂ x₂ before₂)
    · rcases cases e₂ frame₂ x₂ c' known₂ found₂ with ⟨-, -, new₂⟩ | ⟨old₂, before₂, there₂⟩
      · exact absurd (new₂ ▸ there₁) (unused e₁ old₁ x₁ before₁)
      · exact sound.separate e₁ e₂ old₁ old₂ x₁ x₂ c' before₁ before₂ there₁ there₂
  · rcases update_eq_some known' with ⟨rfl, rfl⟩ | ⟨-, known'⟩
    · have old := (sound.frames e' frame known).mono later
      refine .inr ⟨old.kind, fun x c' found => ?_⟩
      rcases update_eq_some found with ⟨rfl, -⟩ | ⟨-, found⟩
      · exact declared
      · exact old.declared x c' found
    · exact .inl known'

/-- The place at which a name has just become complete. -/
theorem World.Stands.addName {W : World} {e : EnvironmentId} {p : Place} {names : Names}
    (stands : W.Stands e p names) {frame : Frame} (known : W.frames e = some frame) {name : String}
    (absent : frame.cells name = none) (c : CellId) (local' : p.levels ≠ []) :
    (W.addFrame e (frame.addName name c)).Stands e (p.mark name true) (names.extend name c) := by
  have later := Extends.addName known absent c
  obtain ⟨levels, context⟩ := p
  cases levels with
  | nil => exact absurd rfl local'
  | cons level outer =>
    obtain ⟨frame', known', origin, complete, around, outside, found⟩ := stands.scope
    obtain rfl := Option.some.inj (known.symm.trans known')
    have here : (W.addFrame e (frame.addName name c)).frames e = some (frame.addName name c) :=
      Function.update_self ..
    refine ⟨⟨frame.addName name c, here, origin, fun x flagged => ?_, around, outside.mono later,
      fun x => ?_⟩, by simp [Place.mark], ?_, stands.tail⟩
    · -- each complete name has a cell: the new one its own, the others those that they had
      rw [Table.find?_insert] at flagged
      by_cases same : name = x
      · exact ⟨c, by simp [Frame.addName, same]⟩
      · rw [if_neg same] at flagged
        obtain ⟨c', present⟩ := complete x flagged
        exact ⟨c', (Function.update_of_ne (Ne.symm same) ..).trans present⟩
    · -- the map finds what the scope has as complete
      rw [Names.find?_extend, Table.find?_insert]
      by_cases same : name = x
      · subst same
        simp [Frame.addName]
      · rw [if_neg same, if_neg same, found x]
        simp [Frame.addName, Function.update_of_ne (Ne.symm same)]
    · -- the frame holds no name that is not complete
      rintro frame'' known'' level' ⟨⟩ x c' present
      rw [here] at known''
      obtain rfl := Option.some.inj known''
      rw [Table.find?_insert]
      rcases update_eq_some present with ⟨rfl, -⟩ | ⟨other, present⟩
      · rw [if_pos rfl]
      · rw [if_neg (Ne.symm other)]
        exact stands.exact frame known level rfl x c' present

/-- The innermost scope around the place does not have the name as complete. -/
def Place.Lacks (p : Place) (name : String) : Prop :=
  ∀ level ∈ p.levels.head?, level.scope.find? name ≠ some true

/-- The environment that is running lacks a name that is not complete. -/
theorem World.Stands.absent {W : World} {e : EnvironmentId} {p : Place} {names : Names}
    (stands : W.Stands e p names) (inside : p.levels ≠ []) {name : String} (lacks : p.Lacks name) :
    ∃ frame, W.frames e = some frame ∧ frame.cells name = none ∧
      ∀ level ∈ p.levels.head?, level.origin = frame.kind.origin := by
  obtain ⟨levels, context⟩ := p
  cases levels with
  | nil => exact absurd rfl inside
  | cons level outer =>
    obtain ⟨frame, known, origin, -⟩ := stands.scope
    refine ⟨frame, known, ?_, by rintro _ ⟨⟩; exact origin.symm⟩
    cases found : frame.cells name with
    | none => rfl
    | some c => exact absurd (stands.exact frame known level rfl name c found) (lacks level rfl)

/-- The name has been declared where the runs are. -/
def Joint.Declared (j : Joint V D) (p : Place) (name : String) : Prop :=
  (∀ level ∈ p.levels.head?, level.scope.find? name = some true) ∧
    (p.levels = [] → j.store.globals.contains name = true)

theorem Joint.define_lockstep {j : Joint V D} {p : Place} {names : Names} (stands : j.Stands p names)
    {name : String} (lacks : p.Lacks name)
    (declares : ∀ level ∈ p.levels.head?, name ∈ level.origin.names) {value : Value}
    (fits : j.world.Fits value) :
    j.Lockstep (some j.current) (NotedRun.lift (Run.define name value))
      (LexicalRun.declare names name value) fun j' _ names' =>
        j'.Stands (p.mark name true) names' ∧ j'.Declared (p.mark name true) name := by
  have related := j.related
  have alike := related.alike
  by_cases outside : p.levels = []
  · -- Outside all scopes the name goes to the globals on both sides.
    obtain rfl := stands.global.2 outside
    have here : j.current = j.world.globals := by
      have scope := stands.scope
      rw [outside] at scope
      exact scope.1
    have real : j.world.Real (j.heap.define j.world.globals name value) _ :=
      related.real.defineGlobal related.sound.globals _ fits
    rw [← here] at real
    refine .change (by rw [← related.moments]; rfl) rfl (.refl _) related.sound real { alike with }
      ⟨rfl, rfl, rfl, rfl, fun x => (Table.contains_insert_of_contains ·)⟩
      fun j' world current store => ?_
    have same : p.mark name true = p := by
      obtain ⟨levels, context⟩ := p
      rw [Place.mark, show levels = [] from outside]
    rw [Stands, Declared, world, current, store, same, outside]
    exact ⟨stands, by rintro _ ⟨⟩, fun _ => by simp [Table.contains_insert]⟩
  · -- In a scope the name gets a new cell, for the frame has none for it yet.
    obtain ⟨cells, rfl⟩ : ∃ cells, names = .inside cells := by
      cases names with
      | global => exact absurd (stands.global.1 rfl) outside
      | inside cells => exact ⟨cells, rfl⟩
    obtain ⟨frame, known, absent, origin⟩ := World.Stands.absent stands outside lacks
    obtain ⟨level, head⟩ : ∃ level, p.levels.head? = some level :=
      ⟨_, List.head?_eq_some_head outside⟩
    have declared : name ∈ frame.kind.origin.names := by
      rw [← origin level head]
      exact declares level head
    have real := (related.real.newCell fits).addName related.sound.globals known absent
      (c := ⟨j.store.cells.size⟩) (by simp)
    rw [Store.cellAt_push, if_pos rfl] at real
    refine .change (by rw [World.addFrame, ← related.moments]; rfl) rfl
      (.addName known absent ⟨j.store.cells.size⟩)
      (related.sound.addName known absent declared related.real.unused) real { alike with }
      ⟨rfl, rfl, rfl, rfl, fun _ present => present⟩ fun j' world current store => ?_
    rw [Stands, Declared, world, current, store]
    refine ⟨World.Stands.addName stands known absent ⟨j.store.cells.size⟩ outside, ?_⟩
    obtain ⟨levels, context⟩ := p
    cases levels with
    | nil => exact absurd rfl outside
    | cons first outer =>
      refine ⟨?_, by rintro ⟨⟩⟩
      rintro _ ⟨⟩
      exact Table.find?_insert_self ..

end Lox
