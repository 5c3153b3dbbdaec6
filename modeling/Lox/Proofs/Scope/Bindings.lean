import Lox.Proofs.Scope.Regular
import Lox.Scope.Distances

/-!
# The distances of an accepted program

The occurrences of a program have numbers of their own. So each is looked up at one place only, and
its distance is the one from that place, whatever was recorded before for other programs.
-/

namespace Lox

/-! ## Occurrences of a program -/

/-- The number of the occurrence that is looked up at a visit. -/
def Visit.id? (v : Visit) : Option Nat := v.mention?.map (·.2.id)

theorem Visit.id?_of_mention {v : Visit} {form : MentionForm} {o : Occurrence}
    (mention : v.mention? = some (form, o)) : v.id? = some o.id := by
  rw [id?, mention]
  rfl

theorem programVisits_subjects (program : Program) :
    (programVisits program).map Visit.subject = Stmt.allSubjects program :=
  Stmt.map_subject_allVisits .topLevel program

theorem Visit.ids_eq (visits : List Visit) :
    visits.filterMap Visit.id? = Subject.ids (visits.map Visit.subject) := by
  rw [Subject.ids, List.filterMap_map]
  rfl

theorem programVisits_ids (program : Program) :
    (programVisits program).filterMap Visit.id? = Subject.ids (Stmt.allSubjects program) := by
  rw [Visit.ids_eq, programVisits_subjects]

/-- Where all results differ, equal results come from one item. -/
theorem eq_of_nodup_filterMap {α β : Type} {f : α → Option β} {items : List α}
    (distinct : (items.filterMap f).Nodup) {x y : α} (first : x ∈ items) (second : y ∈ items) {b : β}
    (left : f x = some b) (right : f y = some b) : x = y := by
  induction items with
  | nil => cases first
  | cons item rest inductionHypothesis =>
    cases result : f item with
    | none =>
      rw [List.filterMap_cons_none result] at distinct
      have absent : ∀ z, f z = some b → z ∈ item :: rest → z ∈ rest := by
        intro z found member
        refine (List.mem_cons.1 member).resolve_left ?_
        rintro rfl
        rw [result] at found
        cases found
      exact inductionHypothesis distinct (absent x left first) (absent y right second)
    | some c =>
      -- The result of the first item is no result of any other.
      rw [List.filterMap_cons_some result, List.nodup_cons] at distinct
      obtain ⟨new, distinct⟩ := distinct
      have elsewhere : ∀ z ∈ rest, f z = some b → c ≠ b := by
        rintro z member found rfl
        exact new (List.mem_filterMap.2 ⟨z, member, found⟩)
      rcases List.mem_cons.1 first with rfl | firstInRest
      · obtain rfl := Option.some.inj (result.symm.trans left)
        rcases List.mem_cons.1 second with rfl | secondInRest
        · rfl
        · exact absurd rfl (elsewhere y secondInRest right)
      · rcases List.mem_cons.1 second with rfl | secondInRest
        · obtain rfl := Option.some.inj (result.symm.trans right)
          exact absurd rfl (elsewhere x firstInRest left)
        · exact inductionHypothesis distinct firstInRest secondInRest

/-! ## Recorded distances -/

theorem Visit.binding?_eq_some {v : Visit} {b : Binding} (bound : v.binding? = some b) :
    v.mention? = some (b.form, b.mention) ∧ v.place.distance? b.mention.name = some b.distance := by
  rw [binding?] at bound
  split at bound
  · cases bound
  · next form o mention =>
    split at bound
    · cases bound
    · obtain ⟨d, distance, rfl⟩ := Option.map_eq_some_iff.1 bound
      exact ⟨mention, distance⟩

theorem Visit.binding?_of_faultless {v : Visit} (faultless : v.faults = []) {form : MentionForm}
    {o : Occurrence} (mention : v.mention? = some (form, o)) :
    v.binding? = (v.place.distance? o.name).map (⟨form, o, ·⟩) := by
  rw [binding?, mention]
  refine if_neg ?_
  rintro ⟨rfl, outside⟩
  obtain ⟨subject, place⟩ := v
  cases subject with
  | mention form' o' =>
    obtain ⟨rfl, rfl⟩ := Prod.mk.inj (Option.some.inj mention)
    have inside : place.context.inClass ≠ .outside := by simpa [faults] using faultless
    exact inside outside
  | _ => cases mention

/-- All that is looked up at lawful visits is recorded. -/
theorem Visit.Lawful.binding?_eq {v : Visit} (lawful : v.Lawful) {form : MentionForm} {o : Occurrence}
    (mention : v.mention? = some (form, o)) :
    v.binding? = (v.place.distance? o.name).map (⟨form, o, ·⟩) := by
  obtain ⟨regular, spelled, -⟩ := lawful
  rw [binding?, mention]
  dsimp only
  split
  · next this =>
    obtain ⟨rfl, outside⟩ := this
    obtain ⟨subject, place⟩ := v
    cases subject with
    | mention form' o' =>
      obtain ⟨rfl, rfl⟩ := Prod.mk.inj (Option.some.inj mention)
      have name : o'.name = "this" := spelled
      rw [name, regular.this_unbound outside, Option.map_none]
    | _ => cases mention
  · rfl

/-- Each binding that is recorded comes from a visit. -/
theorem resolve_binding {program : Program} {b : Binding}
    (found : b ∈ (resolve program).bindings) :
    ∃ v ∈ programVisits program, v.binding? = some b ∧ v.id? = some b.mention.id := by
  rw [resolve_eq] at found
  obtain ⟨v, visited, bound⟩ := List.mem_filterMap.1 found
  exact ⟨v, visited, bound, Visit.id?_of_mention (Visit.binding?_eq_some bound).1⟩

/-- The distance of what is looked up at the visit is the one from its place. -/
def Distances.At (D : Distances) (v : Visit) : Prop :=
  ∀ form o, v.mention? = some (form, o) → D.find? o.id = v.place.distance? o.name

namespace Distances

variable {D : Distances} {bindings : List Binding} {n : Nat}

theorem find?_addAll_of_absent (absent : ∀ b ∈ bindings, b.mention.id ≠ n) :
    (D.addAll bindings).find? n = D.find? n := by
  rw [addAll]
  induction bindings generalizing D with
  | nil => rfl
  | cons b rest inductionHypothesis =>
    obtain ⟨absentHere, absentRest⟩ := List.forall_mem_cons.1 absent
    rw [List.foldl_cons, inductionHypothesis absentRest, find?_insert, if_neg absentHere]

theorem find?_addAll_of_mem {b : Binding} (member : b ∈ bindings)
    (only : ∀ b' ∈ bindings, b'.mention.id = b.mention.id → b' = b) :
    (D.addAll bindings).find? b.mention.id = some b.distance := by
  rw [addAll]
  induction bindings generalizing D with
  | nil => cases member
  | cons first rest inductionHypothesis =>
    rw [List.foldl_cons]
    by_cases again : b ∈ rest
    · exact inductionHypothesis again fun b' found => only b' (List.mem_cons_of_mem _ found)
    · obtain rfl := (List.mem_cons.1 member).resolve_right again
      have absent : ∀ b' ∈ rest, b'.mention.id ≠ b.mention.id := fun b' found same =>
        again (only b' (List.mem_cons_of_mem _ found) same ▸ found)
      have later : (addAll (D.insert b.mention.id b.distance) rest).find? b.mention.id = _ :=
        find?_addAll_of_absent absent
      rw [addAll] at later
      rw [later, find?_insert, if_pos rfl]

/-- Where no occurrence is visited twice, its distance is the one from the place of its visit. -/
theorem find?_addAll_visits {visits : List Visit} (distinct : (visits.filterMap Visit.id?).Nodup)
    (new : ∀ v ∈ visits, ∀ n, v.id? = some n → D.find? n = none)
    (recorded : ∀ v ∈ visits, ∀ form o, v.mention? = some (form, o) →
      v.binding? = (v.place.distance? o.name).map (⟨form, o, ·⟩))
    {v : Visit} (visited : v ∈ visits) : (D.addAll (visits.filterMap Visit.binding?)).At v := by
  intro form o mention
  have id := Visit.id?_of_mention mention
  have bound := recorded v visited form o mention
  -- What is recorded under the number of the occurrence is recorded by its only visit.
  have only : ∀ b ∈ visits.filterMap Visit.binding?, b.mention.id = o.id → v.binding? = some b := by
    intro b found same
    obtain ⟨v', visited', bound'⟩ := List.mem_filterMap.1 found
    have id' := Visit.id?_of_mention (Visit.binding?_eq_some bound').1
    rw [same] at id'
    rw [eq_of_nodup_filterMap distinct visited visited' id id', bound']
  cases distance : v.place.distance? o.name with
  | none =>
    rw [distance] at bound
    rw [find?_addAll_of_absent, new v visited _ id]
    intro b found same
    have bound' := only b found same
    rw [bound] at bound'
    cases bound'
  | some d =>
    rw [distance] at bound
    have found : (⟨form, o, d⟩ : Binding) ∈ visits.filterMap Visit.binding? :=
      List.mem_filterMap.2 ⟨v, visited, bound⟩
    exact find?_addAll_of_mem found fun b found' same =>
      Option.some.inj ((only b found' same).symm.trans bound)

end Distances

/-! ## Accepted programs -/

/-- A program that was read from the tokens with the given numbers, and that the resolver accepts. -/
structure Program.Accepted (first last : Nat) (program : Program) : Prop where
  read : ReadBetween first last (Stmt.allSubjects program)
  placed : Stmt.AllWellPlaced program
  faultless : ∀ v ∈ programVisits program, v.faults = []

namespace Program.Accepted

variable {first last : Nat} {program : Program} (accepted : program.Accepted first last)
include accepted

theorem lawful : ∀ v ∈ programVisits program, v.Lawful :=
  programVisits_lawful accepted.read.spelled accepted.placed

theorem bounds {v : Visit} (visited : v ∈ programVisits program) {n : Nat} (id : v.id? = some n) :
    first ≤ n ∧ n < last := by
  refine accepted.read.bounds n ?_
  rw [← programVisits_ids]
  exact List.mem_filterMap.2 ⟨v, visited, id⟩

theorem unique {v v' : Visit} (visited : v ∈ programVisits program)
    (visited' : v' ∈ programVisits program) {n : Nat} (id : v.id? = some n)
    (id' : v'.id? = some n) : v = v' := by
  have distinct := accepted.read.distinct
  rw [← programVisits_ids] at distinct
  exact eq_of_nodup_filterMap distinct visited visited' id id'

/-- The distances of occurrences outside of the program stay as they were. -/
theorem distance_outside {D : Distances} {n : Nat} (outside : n < first ∨ last ≤ n) :
    (D.addAll (resolve program).bindings).find? n = D.find? n := by
  refine Distances.find?_addAll_of_absent fun b found same => ?_
  obtain ⟨v, visited, -, id⟩ := resolve_binding found
  have bounds := accepted.bounds visited id
  omega

/-- The distance of an occurrence is the one from its place. -/
theorem distance {D : Distances} (new : ∀ n, first ≤ n → D.find? n = none) {v : Visit}
    (visited : v ∈ programVisits program) {form : MentionForm} {o : Occurrence}
    (mention : v.mention? = some (form, o)) :
    (D.addAll (resolve program).bindings).find? o.id = v.place.distance? o.name := by
  have distinct := accepted.read.distinct
  rw [← programVisits_ids] at distinct
  rw [resolve_eq]
  exact Distances.find?_addAll_visits distinct
    (fun v visited n id => new n (accepted.bounds visited id).1)
    (fun v visited _ _ => Visit.binding?_of_faultless (accepted.faultless v visited)) visited form o
    mention

end Program.Accepted

end Lox
