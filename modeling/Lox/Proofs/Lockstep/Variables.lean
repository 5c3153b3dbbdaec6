import Lox.Proofs.Lockstep.Mentions

/-!
# Variables in step

Reading a variable gives the same value on both sides, or the same error; writing it changes the entry
and the cell that belong together.
-/

namespace Lox

open Lexical (CellId Names Store LexicalRun)

variable {V : Visit → Prop} {D : Distances} {α β : Type}

/-- The mention is noted before it is looked up. -/
theorem Joint.Lockstep.observe {j : Joint V D} {o : Option EnvironmentId} {form : MentionForm}
    {mention : Occurrence} {p : Place} {names : Names} {v : Visit} {run : TracedRun α}
    {reference : LexicalRun β} {Q : Joint V D → α → β → Prop} (ruled : Ruled V D)
    (stands : j.Stands p names) (at' : v.At mention p form) (visited : V v)
    (steps : ∀ j' : Joint V D, j.Before none j' → j'.Stands p names →
      j'.traced.notes = .mention form mention j.traced.machine :: j.traced.notes →
      j'.Lockstep o run reference Q) :
    j.Lockstep o (do NotedRun.note Moment.scribe (.mention form mention); run) reference Q := by
  have related := j.related
  have later := World.Extends.addMoment (W := j.world) (.mention form mention j.traced.machine)
  have good : (Moment.mention form mention j.traced.machine).Good V j.world.moments :=
    ⟨v, visited, at'.lookedUp ruled visited stands⟩
  -- Afterwards there is one moment more, and heap and store are what they were.
  let j' : Joint V D := {
    world := j.world.addMoment (.mention form mention j.traced.machine)
    traced := { j.traced with
      notes := .mention form mention j.traced.machine :: j.traced.notes }
    store := j.store
    related := { related with
      sound := related.sound.addMoment good
      real := related.real.addMoment _
      moments := by rw [related.moments]; rfl } }
  have before : j.Before none j' := ⟨later, rfl, fun _ present => present⟩
  have first : j.Lockstep o (NotedRun.note Moment.scribe (.mention form mention))
      (Pure.pure ()) fun k _ _ => k = j' :=
    .inl ⟨(), (), j', rfl, rfl, before.weaken, rfl⟩
  have whole := first.bind (g := fun _ => reference) (R := Q) (f := fun _ => run)
    fun _ _ k _ same => by
      subst same
      exact steps j' before (before.stands stands) rfl
  exact whole.of_eq rfl rfl

section Access

variable {j : Joint V D} {p : Place} {names : Names} {o : Occurrence}

/-- The globals of the machine are the global table of the store. -/
theorem Joint.globalNames (j : Joint V D) :
    j.traced.machine.globals.index < j.traced.machine.heap.environments.size ∧
      j.traced.machine.heap.environmentAt j.traced.machine.globals = ⟨j.store.globals, none⟩ := by
  rw [j.related.globals]
  exact ⟨j.related.real.globals, j.related.real.globalNames⟩

theorem Joint.lookUp_lockstep (stands : j.Stands p names) (distance : D.find? o.id = p.distance? o.name)
    (read : p.inOwnInitializer o.name = false) :
    j.Lockstep none (NotedRun.lift (Run.lookUp o)) (LexicalRun.lookUp names o) fun j' a b =>
      j'.Same a b := by
  have related := j.related
  rw [← related.distances] at distance
  cases found : p.distance? o.name with
  | none =>
    -- Both sides look into the globals, which are the same.
    obtain ⟨inBounds, globals⟩ := j.globalNames
    have unresolved : names.find? o.name = none := World.Stands.unresolved stands found
    rw [found] at distance
    cases present : j.store.globals.find? o.name with
    | none =>
      refine Lockstep.of_eq (Lockstep.fail : j.Lockstep none
        (Run.fail o (.undefinedVariable o.name)) (Run.fail o (.undefinedVariable o.name))
        _) ?_ ?_
      · rw [NotedRun.lift, Run.lookUp_global distance,
          Heap.lookUp_outermost inBounds (by rw [globals]), globals, present]
        rfl
      · rw [LexicalRun.lookUp_global unresolved, present]
    | some value =>
      have fits := related.real.globalsFit _ value present
      refine (Lockstep.pure (a := value) (b := value) ⟨rfl, fits⟩).of_eq ?_ ?_
      · rw [NotedRun.lift, Run.lookUp_global distance,
          Heap.lookUp_outermost inBounds (by rw [globals]), globals, present]
        rfl
      · rw [LexicalRun.lookUp_global unresolved, present]
        rfl
  | some d =>
    -- The environment at the distance holds the value of the cell in the map.
    obtain ⟨a, frame, c, ancestor, known, cell, resolved⟩ :=
      World.Stands.resolve related.real stands read found
    have holds := (related.real.frames a frame known).holds o.name
    rw [cell, Option.map_some] at holds
    rw [found] at distance
    refine (Lockstep.pure (a := j.store.cellAt c) (b := j.store.cellAt c)
      ⟨rfl, related.real.cellsFit c⟩).of_eq ?_ ?_
    · rw [NotedRun.lift, Run.lookUp_local distance, Heap.lookUpAt_of_ancestor ancestor, holds]
      rfl
    · exact LexicalRun.lookUp_cell resolved

/-- In its own initializer a variable has a distance, but the environment there lacks it. -/
theorem Joint.assign_own (stands : j.Stands p names) (own : p.inOwnInitializer o.name = true)
    (distance : j.traced.machine.distances.find? o.id = p.distance? o.name) (value : Value) :
    NotedRun.lift (Run.assign o value) j.traced =
      .error (.internal (.unresolvedBinding o.name 0)) j.traced := by
  obtain ⟨here, level, head, incomplete⟩ := Place.distance?_of_inOwnInitializer own
  have inside : p.levels ≠ [] := by
    intro outside
    rw [outside] at head
    cases head
  have lacks : p.Lacks o.name := by
    intro level' head'
    obtain rfl := Option.some.inj (head.symm.trans head')
    simp [incomplete]
  -- The environment gets the name only when the initializer is done.
  obtain ⟨frame, known, absent, -⟩ := World.Stands.absent stands inside lacks
  have holds := (j.related.real.frames _ frame known).holds o.name
  rw [absent, Option.map_none] at holds
  rw [here] at distance
  rw [NotedRun.lift, Run.assign_local distance, Heap.holderAt_of_ancestor (a := j.current) rfl,
    Table.contains, holds]
  rfl

theorem Joint.assign_global_lockstep (stands : j.Stands p names)
    (global : p.distance? o.name = none)
    (distance : j.traced.machine.distances.find? o.id = none) {value : Value}
    (fits : j.world.Fits value) :
    j.Lockstep none (NotedRun.lift (Run.assign o value)) (LexicalRun.assign names o value)
      fun _ _ _ => True := by
  have related := j.related
  obtain ⟨inBounds, globals⟩ := j.globalNames
  have unresolved : names.find? o.name = none := World.Stands.unresolved stands global
  -- The globals are the same on both sides, so both find the name or both report it.
  cases present : j.store.globals.contains o.name with
  | false =>
    refine Lockstep.of_eq (Lockstep.fail : j.Lockstep none
      (Run.fail o (.undefinedVariable o.name))
      (Run.fail o (.undefinedVariable o.name)) _) ?_ ?_
    · rw [NotedRun.lift, Run.assign_global distance,
        Heap.holder_outermost inBounds (by rw [globals]), globals, present]
      rfl
    · rw [LexicalRun.assign_global unresolved, present]
      rfl
  | true =>
    have real : j.world.Real (j.traced.machine.heap.define j.world.globals o.name value) _ :=
      related.real.defineGlobal related.sound.globals _ fits
    rw [← related.globals] at real
    refine .change (a := ()) (b := ()) ?_ ?_ (.refl _) related.sound real { related.alike with }
      ⟨rfl, rfl, rfl, rfl, fun x => (Table.contains_insert_of_contains ·)⟩
      fun _ _ _ _ => trivial
    · rw [NotedRun.lift, Run.assign_global distance,
        Heap.holder_outermost inBounds (by rw [globals]), globals, present, ← related.moments]
      rfl
    · rw [LexicalRun.assign_global unresolved, present]
      rfl

theorem Joint.assign_local_lockstep (stands : j.Stands p names)
    (settled : p.inOwnInitializer o.name = false) {d : Nat} (found : p.distance? o.name = some d)
    (distance : j.traced.machine.distances.find? o.id = some d) (ordinary : IsOrdinary o.name)
    {value : Value} (fits : j.world.Fits value) :
    j.Lockstep none (NotedRun.lift (Run.assign o value)) (LexicalRun.assign names o value)
      fun _ _ _ => True := by
  have related := j.related
  obtain ⟨a, frame, c, ancestor, known, cell, resolved⟩ :=
    World.Stands.resolve related.real stands settled found
  have holds := (related.real.frames a frame known).holds o.name
  rw [cell, Option.map_some] at holds
  refine .change (a := ()) (b := ()) ?_ (LexicalRun.assign_cell resolved value) (.refl _)
    related.sound (related.real.setCell related.sound known cell ordinary fits)
    { related.alike with } ⟨rfl, rfl, rfl, rfl, fun _ present => present⟩ fun _ _ _ _ => trivial
  rw [NotedRun.lift, Run.assign_local distance, Heap.holderAt_of_ancestor ancestor,
    Table.contains, holds, ← related.moments]
  rfl

theorem Joint.assign_lockstep (ruled : Ruled V D) (stands : j.Stands p names)
    (visited : V ⟨.mention .assignment o, p⟩) {m : Machine} {earlier : List Moment}
    (noted : j.traced.notes = .mention .assignment o m :: earlier) {value : Value}
    (fits : j.world.Fits value) :
    j.Lockstep none (NotedRun.lift (Run.assign o value)) (LexicalRun.assign names o value)
      fun _ _ _ => True := by
  have ordinary : IsOrdinary o.name := (ruled.lawful _ visited).spelled
  have distance : j.traced.machine.distances.find? o.id = p.distance? o.name := by
    rw [j.related.distances]
    exact ruled.distance _ .assignment o visited rfl
  cases own : p.inOwnInitializer o.name with
  | true =>
    -- The resolver does not refuse this assignment. It is the one excuse for an internal fault.
    exact .inr ⟨_, j, j.assign_own stands own distance value, .refl j,
      .inl ⟨o, m, earlier, _, rfl, noted, visited, rfl, own⟩⟩
  | false =>
    cases found : p.distance? o.name with
    | none =>
      rw [found] at distance
      exact j.assign_global_lockstep stands found distance fits
    | some d =>
      rw [found] at distance
      exact j.assign_local_lockstep stands own found distance ordinary fits

end Access

end Lox
