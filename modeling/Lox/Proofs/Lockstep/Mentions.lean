import Lox.Proofs.Lockstep.Lookups

/-!
# Mentions in step

A mention that the resolver accepted is noted, and then both runs read or write the same variable. Only
an assignment in the initializer of its own variable may find no entry where its distance leads.
-/

namespace Lox

open Lexical (CellId Names Store LexicalRun)

variable {V : Visit → Prop} {D : Distances} {α β : Type}

/-! ## Accepted mentions -/

/-- The two values are one, which the world knows. -/
def Joint.Same (j : Joint V D) (a b : Value) : Prop := b = a ∧ j.world.Fits a

/-- A visit of the mention at the place, which is where the runs are. -/
inductive Visit.At (o : Occurrence) (p : Place) : MentionForm → Visit → Prop where
  | mention (form : MentionForm) : Visit.At o p form ⟨.mention form o, p⟩
  /-- The resolver takes the class for declared when it comes to the superclass. -/
  | superclass (className : Token) :
      Visit.At o p .variable ⟨.superclass className o, p.declareComplete className⟩

theorem Visit.At.mention? {o : Occurrence} {p : Place} {form : MentionForm} {v : Visit}
    (at' : v.At o p form) : v.mention? = some (form, o) := by
  cases at' <;> rfl

theorem Place.find?_declareComplete {scope : Scope} {name : String} (x : String) :
    ((scope.insert name false).insert name true).find? x =
      if name = x then some true else scope.find? x := by
  rw [Table.find?_insert, Table.find?_insert]
  split <;> rfl

/-- Declaring another name moves no name to another scope. -/
theorem Place.distance?_declareComplete (p : Place) {name : Token} {x : String}
    (other : name.lexeme ≠ x) : (p.declareComplete name).distance? x = p.distance? x := by
  obtain ⟨levels, context⟩ := p
  cases levels with
  | nil => rfl
  | cons level outer =>
    have same : ((level.scope.insert name.lexeme false).insert name.lexeme true).contains x =
        level.scope.contains x := by
      rw [Table.contains, find?_declareComplete, if_neg other, Table.contains]
    simp [declareComplete, mark, distance?, scopes, List.findIdx?_cons, same]

theorem Place.inOwnInitializer_declareComplete (p : Place) {name : Token} {x : String}
    (other : name.lexeme ≠ x) :
    (p.declareComplete name).inOwnInitializer x = p.inOwnInitializer x := by
  obtain ⟨levels, context⟩ := p
  cases levels with
  | nil => rfl
  | cons level outer =>
    simp [declareComplete, mark, inOwnInitializer, find?_declareComplete, if_neg other]

section Accepted

variable (ruled : Ruled V D) {o : Occurrence} {p : Place} {form : MentionForm} {v : Visit}
include ruled

/-- The distance of a mention is the one at the place where the runs are. -/
theorem Visit.At.distance (at' : v.At o p form) (visited : V v) :
    D.find? o.id = p.distance? o.name := by
  rw [ruled.distance v form o visited at'.mention?]
  cases at' with
  | mention form => rfl
  | superclass className =>
    have faultless := ruled.faultless _ visited
    refine Place.distance?_declareComplete p fun equal => ?_
    simp [Visit.faults, equal] at faultless

/-- Only an assignment is accepted in the initializer of its own variable. -/
theorem Visit.At.read (at' : v.At o p form) (visited : V v) (reads : form = .variable) :
    p.inOwnInitializer o.name = false := by
  have faultless := ruled.faultless _ visited
  cases at' with
  | mention form =>
    subst reads
    cases own : p.inOwnInitializer o.name with
    | false => rfl
    | true => simp [Visit.faults, own] at faultless
  | superclass className =>
    simp only [Visit.faults, List.append_eq_nil_iff] at faultless
    obtain ⟨different, settled⟩ := faultless
    have other : className.lexeme ≠ o.name := fun equal => by simp [equal] at different
    rw [Place.inOwnInitializer_declareComplete p other] at settled
    cases own : p.inOwnInitializer o.name with
    | false => rfl
    | true => simp [own] at settled

omit ruled

theorem Place.IsRegular.inOwnInitializer {p : Place} (regular : p.IsRegular) {name : String}
    (implicit : ¬ IsOrdinary name) : p.inOwnInitializer name = false := by
  have plain := regular.head_plain
  obtain ⟨levels, context⟩ := p
  cases levels with
  | nil => rfl
  | cons level outer =>
    cases found : level.scope.find? name with
    | none => simp [Place.inOwnInitializer, found]
    | some flag => exact absurd (plain level rfl name (by rw [Table.contains, found]; rfl)) implicit

include ruled

/-- A mention of `this` or `super` is accepted in a method only. -/
theorem Visit.At.method (at' : v.At o p form) (visited : V v) (implicit : form = .this ∨ form = .super) :
    ∃ inner outer method text, MethodAround p.levels inner outer method text ∧
      (form = .super → text.superclass.isSome ∧
        ∃ rest, outer = ⟨Resolver.implicitScope "super", .super text⟩ :: rest) := by
  -- What is visited is free of faults, and outside a class both words are one.
  have faultless := ruled.faultless v visited
  have lawful := ruled.lawful v visited
  cases at' with
  | superclass => simp at implicit
  | mention form =>
    have regular : Regular p.levels p.context.inClass := lawful.regular
    rcases implicit with rfl | rfl
    · have inside : p.context.inClass ≠ .outside := fun outside => by
        simp [Visit.faults, outside] at faultless
      obtain ⟨inner, outer, method, text, around, -⟩ := regular.methodAround inside
      exact ⟨inner, outer, method, text, around, by simp⟩
    · have inside : p.context.inClass = .subclass := by
        cases inClass : p.context.inClass with
        | subclass => rfl
        | _ => simp [Visit.faults, inClass] at faultless
      obtain ⟨inner, outer, method, text, around, super⟩ := regular.methodAround (by simp [inside])
      exact ⟨inner, outer, method, text, around, fun _ => super inside⟩

/-- What the account tells of a mention that is looked up now. -/
theorem Visit.At.lookedUp (at' : v.At o p form) (visited : V v) {j : Joint V D} {names : Names}
    (stands : j.Stands p names) : v.LookedUp j.world.moments form o j.traced.machine := by
  have related := j.related
  have distance := ruled.distance v form o visited at'.mention?
  rw [← related.distances] at distance
  have chain := fun pending => related.globals ▸
    stands.scope.corresponds related.real related.sound pending
  have anchored : form = .this ∨ form = .super → ∃ a : Anchor,
      a.Holds j.world.moments j.traced.machine p.levels := fun implicit => by
    obtain ⟨inner, outer, method, text, around, -⟩ := at'.method ruled visited implicit
    exact stands.scope.anchor related.real related.sound rfl around
  have exact' : ∀ level ∈ p.levels.head?, ∀ x,
      (j.traced.machine.heap.environmentAt j.current).names.contains x = true →
        level.scope.find? x = some true := by
    intro level head x present
    have scope := stands.scope
    cases levels : p.levels with
    | nil =>
      rw [levels] at head
      cases head
    | cons first outer =>
      rw [levels] at scope
      obtain ⟨frame, known, -⟩ := scope
      rw [Table.contains, (related.real.frames _ frame known).holds, Option.isSome_map] at present
      obtain ⟨c, cell⟩ := Option.isSome_iff_exists.1 present
      exact stands.exact frame known level head x c cell
  -- A superclass is looked up behind the name of its class, which is complete but not yet bound.
  cases at' with
  | mention form => exact ⟨rfl, distance, chain none, exact', stands.tail, anchored⟩
  | superclass className =>
    refine ⟨rfl, distance, ?_, ?_, ?_, by simp⟩
    · have chainHere := chain (some className.lexeme)
      obtain ⟨levels, context⟩ := p
      cases levels with
      | nil => exact chainHere
      | cons level outer =>
        obtain ⟨holds, declared, next, enclosing, rest⟩ := chainHere
        refine ⟨fun x flagged => ?_, declared, next, enclosing, rest⟩
        rw [Place.find?_declareComplete] at flagged
        by_cases same : className.lexeme = x
        · exact .inl (by simp [Visit.pending?, same])
        · rw [if_neg same] at flagged
          exact holds x flagged
    · obtain ⟨levels, context⟩ := p
      cases levels with
      | nil => rintro _ ⟨⟩
      | cons level outer =>
        rintro _ ⟨⟩ x present
        rw [Place.find?_declareComplete]
        split
        · rfl
        · exact exact' level rfl x present
    · rw [(Place.Advances.declareComplete p className).tail]
      exact stands.tail

end Accepted

end Lox
