import Lox.Proofs.Session.Scopes

/-!
# Reading and writing variables

A variable that the resolver accepted is read without an internal fault, and so it is written, with one
exception: an assignment to a local variable in its own initializer. The resolver refuses a read there,
but not a write, and the environment does not hold the name yet.
-/

namespace Lox

variable {v : Visit} {earlier : List Moment} {form : MentionForm} {o : Occurrence} {m : Machine}

/-- A name without a distance is a global, or it is undefined. -/
theorem Heap.lookUp_cases (h : Heap) (e : EnvironmentId) (mention : Occurrence) :
    (∃ value, h.lookUp e mention = .ok value) ∨
      h.lookUp e mention = .error ⟨.undefinedVariable mention.name, mention⟩ := by
  rw [lookUp, holder]
  cases h.holder? e mention.name with
  | none => exact .inr rfl
  | some holder => exact .inl ⟨_, rfl⟩

theorem Heap.holder_cases (h : Heap) (e : EnvironmentId) (mention : Occurrence) :
    (∃ holder, h.holder e mention = .ok holder) ∨
      h.holder e mention = .error ⟨.undefinedVariable mention.name, mention⟩ := by
  rw [holder]
  cases h.holder? e mention.name with
  | none => exact .inr rfl
  | some holder => exact .inl ⟨holder, rfl⟩

/-- The signal of a mention of a global that is not defined. -/
def Occurrence.undefined (o : Occurrence) : Signal := .failed ⟨.undefinedVariable o.name, o⟩

/-! ## Reading -/

theorem Visit.LookedUp.lookUp (lookedUp : v.LookedUp earlier form o m) (lawful : v.Lawful)
    (faultless : v.faults = []) (reads : form ≠ .assignment) :
    (∃ value, Run.lookUp o m = .ok value m) ∨ Run.lookUp o m = .error o.undefined m := by
  cases recorded : m.distances.find? o.id with
  | some d =>
    obtain ⟨value, found⟩ := lookedUp.read lawful faultless reads recorded
    rw [Run.lookUp_local recorded, found]
    exact .inl ⟨value, rfl⟩
  | none =>
    rw [Run.lookUp_global recorded]
    rcases m.heap.lookUp_cases m.globals o with ⟨value, found⟩ | undefined
    · rw [found]
      exact .inl ⟨value, rfl⟩
    · rw [undefined]
      exact .inr rfl

/-! ## Writing -/

/-- In its own initializer a variable has a distance, but no entry in the environment there. -/
theorem Visit.LookedUp.assign_own (lookedUp : v.LookedUp earlier form o m)
    (own : v.place.inOwnInitializer o.name = true) (value : Value) :
    Run.assign o value m = .error (.internal (.unresolvedBinding o.name 0)) m := by
  obtain ⟨here, level, head, incomplete⟩ := Place.distance?_of_inOwnInitializer own
  have recorded := lookedUp.distance
  have absent : (m.heap.environmentAt m.current).names.contains o.name = false := by
    cases present : (m.heap.environmentAt m.current).names.contains o.name with
    | false => rfl
    | true =>
      have complete := lookedUp.exact level head o.name present
      rw [incomplete] at complete
      cases complete
  rw [here] at recorded
  rw [Run.assign_local recorded, Heap.holderAt_of_ancestor (a := m.current) rfl, absent]
  rfl

theorem Visit.LookedUp.assign (lookedUp : v.LookedUp earlier .assignment o m)
    (settled : v.place.inOwnInitializer o.name = false) (value : Value) :
    (∃ heap, Run.assign o value m = .ok () { m with heap }) ∨
      Run.assign o value m = .error o.undefined m := by
  -- A name is pending only where the superclass of a class is looked up.
  have pending : v.pending? = none := by
    obtain ⟨subject, place⟩ := v
    have mention := lookedUp.mention
    cases subject with
    | superclass => cases mention
    | _ => rfl
  cases recorded : m.distances.find? o.id with
  | some d =>
    have distance := recorded
    rw [lookedUp.distance] at distance
    obtain ⟨level, there, flagged⟩ := Place.level_of_distance lookedUp.tail settled distance
    obtain ⟨a, ancestor, holds, -⟩ := lookedUp.chain.level there
    have present := (holds o.name flagged).resolve_right fun innermost => by
      have other := innermost.2
      rw [pending] at other
      cases other
    rw [Run.assign_local recorded, Heap.holderAt_of_ancestor ancestor, if_pos present]
    exact .inl ⟨_, rfl⟩
  | none =>
    rw [Run.assign_global recorded]
    rcases m.heap.holder_cases m.globals o with ⟨holder, found⟩ | undefined
    · rw [found]
      exact .inl ⟨_, rfl⟩
    · rw [undefined]
      exact .inr rfl

/-! ## Every session -/

/--
Whenever a variable is looked up to be read, it has a value or it is an undefined global. Whenever it is
looked up to be written, it is written or is an undefined global, just if the place is not in the
initializer of the variable; and in the initializer there is an internal fault.
-/
theorem variable_access (clock : Nat → Float) (steps : List Session.Step)
    {later earlier : List Moment} {form : MentionForm} {o : Occurrence} {m : Machine}
    (lookedUp : (TracedSession.after clock steps).moments =
      later ++ .mention form o m :: earlier) :
    ∃ v ∈ (TracedSession.after clock steps).visits, v.mention? = some (form, o) ∧
      (form = .variable →
        (∃ value, Run.lookUp o m = .ok value m) ∨ Run.lookUp o m = .error o.undefined m) ∧
      (form = .assignment → ∀ value,
        if v.place.inOwnInitializer o.name then
          Run.assign o value m = .error (.internal (.unresolvedBinding o.name 0)) m
        else
          (∃ heap, Run.assign o value m = .ok () { m with heap }) ∨
            Run.assign o value m = .error o.undefined m) := by
  have sound := TracedSession.after_sound clock steps
  obtain ⟨v, visited, here⟩ := sound.lookedUp lookedUp
  refine ⟨v, visited, here.mention, fun reads => ?_, fun writes value => ?_⟩
  · exact here.lookUp (sound.ruled.lawful v visited) (sound.ruled.faultless v visited)
      (by simp [reads])
  · subst writes
    cases own : v.place.inOwnInitializer o.name with
    | true => exact here.assign_own own value
    | false => exact here.assign own value

/-- A block that declares a variable, whose initializer assigns to it. -/
def ownAssignment : List Session.Step :=
  [.run ⟨100, 100, 100, 100⟩ "\x7b var a = (a = true); print a; \x7d"]

theorem variable_access_ownAssignment :
    ∃ later earlier o m, (TracedSession.after (fun _ => 0) ownAssignment).moments =
        later ++ .mention .assignment o m :: earlier ∧
      ∀ value, Run.assign o value m = .error (.internal (.unresolvedBinding "a" 0)) m := by
  obtain ⟨later, o, m, earlier, split⟩ : ∃ later o m earlier,
      (TracedSession.after (fun _ => 0) ownAssignment).moments =
        later ++ .mention .assignment o m :: earlier :=
    TracedSession.exists_mention (by decide +kernel)
  have own : ∀ v ∈ (TracedSession.after (fun _ => 0) ownAssignment).visits,
      ∀ x ∈ v.mention?, x.1 = .assignment →
        x.2.name = "a" ∧ v.place.inOwnInitializer x.2.name = true := by decide +kernel
  obtain ⟨v, visited, mention, -, writes⟩ := variable_access (fun _ => 0) ownAssignment split
  obtain ⟨named, here⟩ := own v visited _ mention rfl
  refine ⟨later, earlier, o, m, split, fun value => ?_⟩
  have fault := writes rfl value
  rw [if_pos here, named] at fault
  exact fault

/-- An internal fault ends a run only at an assignment to a variable in its own initializer. -/
theorem Session.internal_only_in_own_initializer (clock : Nat → Float) (steps : List Session.Step)
    (limits : Limits) (source : String) {fault : InternalFault}
    (internal : ((Session.after clock steps).run limits source).1.verdict =
      .escaped (.internal fault)) :
    ∃ program o m earlier v, (Session.after clock steps).accepted? limits source = some program ∧
      ((TracedSession.after clock steps).execute limits source program).2.moments =
        .mention .assignment o m :: earlier ∧
      v ∈ programVisits program ++ (TracedSession.after clock steps).visits ∧
      v.subject = .mention .assignment o ∧ v.place.inOwnInitializer o.name = true ∧
      fault = .unresolvedBinding o.name 0 := by
  have sound := TracedSession.after_sound clock steps
  have plain := (Session.after clock steps).run_eq limits source
  rw [← TracedSession.after_session] at plain internal ⊢
  generalize TracedSession.after clock steps = s at sound plain internal ⊢
  cases accepted : s.session.accepted? limits source with
  | none =>
    -- A text that is not accepted is rejected or too deep, and neither is an internal fault.
    rw [accepted] at plain
    rcases plain.2 with ⟨errors, rejected⟩ | exhausted
    · rw [rejected] at internal
      cases internal
    · rw [exhausted] at internal
      cases internal
  | some program =>
    rw [accepted] at plain
    dsimp only at plain
    have outcome := (s.execute_session limits source program).1
    rw [plain.2.1, ← outcome] at internal
    obtain ⟨store, j, traced, -, ended⟩ := sound.runs (Session.accepted?_sound accepted)
      limits.loops limits.depth
    have moments : (s.execute limits source program).2.moments = j.traced.notes :=
      congrArg Noted.notes traced
    have verdict : (s.execute limits source program).1 = .escaped (.internal fault) := by
      cases kind : (s.execute limits source program).1 with
      | escaped escape =>
        rw [kind] at internal
        exact congrArg Outcome.escaped (Verdict.escaped.inj internal)
      | _ =>
        rw [kind] at internal
        cases internal
    -- In lockstep with the lexical run there is no internal fault, but for the one that is excused.
    cases ended with
    | same _ fair => exact absurd verdict (fair.internal fault)
    | excused signal ends excused =>
      obtain ⟨o, m, earlier, v, rfl, noted, visited, subject, own⟩ := excused
      have same : Signal.outcome _ = Outcome.escaped (.internal fault) := ends.symm.trans verdict
      refine ⟨program, o, m, earlier, v, rfl, moments.trans noted, visited, subject, own, ?_⟩
      exact (Escape.internal.inj (Outcome.escaped.inj same)).symm

end Lox
