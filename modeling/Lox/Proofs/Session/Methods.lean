import Lox.Proofs.Session.Scopes

/-!
# What `this` and `super` mean

Wherever `this` or `super` is looked up, the account of the run tells which call made the environment of
the innermost method, to which instance the method was bound for it, and which class declaration that
method stands in. The values found are that instance and the superclass of that declaration.
-/

namespace Lox

variable {V : Visit → Prop} {D : Distances} {v : Visit} {earlier : List Moment}
  {form : MentionForm} {o : Occurrence} {m : Machine}

/-- A mention of an implicit name is visited as such, and is spelled like it. -/
theorem Visit.implicit_subject (lawful : v.Lawful) (mention : v.mention? = some (form, o))
    (implicit : form = .this ∨ form = .super) :
    v.subject = .mention form o ∧ (form = .this → o.name = "this") ∧
      (form = .super → o.name = "super") := by
  obtain ⟨subject, place⟩ := v
  have spelled := lawful.spelled
  cases subject with
  | declaration | result => cases mention
  | superclass className o' =>
    obtain ⟨rfl, rfl⟩ := Prod.mk.inj (Option.some.inj mention)
    simp at implicit
  | mention form' o' =>
    obtain ⟨rfl, rfl⟩ := Prod.mk.inj (Option.some.inj mention)
    refine ⟨rfl, ?_, ?_⟩
    · rintro rfl
      exact spelled
    · rintro rfl
      exact spelled

/-- `this` is the instance to which the innermost method was bound. -/
theorem Visit.LookedUp.this (lookedUp : v.LookedUp earlier .this o m) (lawful : v.Lawful)
    {a : Anchor} (holds : a.Holds earlier m v.place.levels) :
    Run.lookUp o m = .ok (.instance a.object) m := by
  have named := (v.implicit_subject lawful lookedUp.mention (.inl rfl)).2.1 rfl
  have recorded := lookedUp.distance
  have distance : v.place.distance? "this" = some (a.inner.length + 1) :=
    holds.method.distance_this
  rw [named, distance] at recorded
  have found : m.heap.lookUpAt m.current ((a.inner.length + 1 : Nat) : Int) "this" =
    .ok (.instance a.object) := Heap.lookUpAt_of_found holds.within holds.this
  rw [Run.lookUp_local recorded, named, found]
  rfl

/-- What a mention of `super` finds on a machine. -/
structure Anchor.Super (a : Anchor) (o : Occurrence) (m : Machine) (d : Nat) (parent : ClassId) :
    Prop where
  /-- The instance lies one step inside the superclass, and that inside the method. -/
  distance : d = a.inner.length + 2
  recorded : m.distances.find? o.id = some d
  /-- The superclass that the class declaration around the method found. -/
  declared : a.parent = some parent
  super : m.heap.lookUpAt m.current d "super" = .ok (.class parent)
  this : m.heap.lookUpAt m.current ((d : Int) - 1) "this" = .ok (.instance a.object)

theorem Visit.LookedUp.super (lookedUp : v.LookedUp earlier .super o m) (ruled : Ruled V D)
    (visited : V v) {a : Anchor} (holds : a.Holds earlier m v.place.levels) :
    ∃ d parent, a.Super o m d parent := by
  obtain ⟨subject, -, named⟩ :=
    v.implicit_subject (ruled.lawful v visited) lookedUp.mention (.inr rfl)
  have at' : Visit.At o v.place .super v := by
    obtain ⟨_, place⟩ := v
    obtain rfl : _ = Subject.mention .super o := subject
    exact .mention .super
  obtain ⟨inner, outer, method, text, around, super⟩ := at'.method ruled visited (.inr rfl)
  obtain ⟨hasSuperclass, rest, outside⟩ := super rfl
  obtain ⟨rfl, -, -, rfl⟩ := around.unique holds.method
  -- Outside the scopes of the method lies the one for `this`, and outside that the one for `super`.
  have distance : v.place.distance? "super" = some (a.inner.length + 2) :=
    around.distance_super outside
  have recorded := lookedUp.distance
  rw [named rfl, distance] at recorded
  obtain ⟨parent, found⟩ := Option.isSome_iff_exists.1 (holds.hasParent.trans hasSuperclass)
  have inside : (((a.inner.length + 2 : Nat) : Int) - 1).toNat = a.inner.length + 1 := by omega
  exact ⟨_, parent, rfl, recorded, found,
    Heap.lookUpAt_of_found holds.around (holds.parent parent found).1,
    Heap.lookUpAt_of_found (inside ▸ holds.within) holds.this⟩

/-- A method of `super` is looked for from the superclass on, and is bound to the instance. -/
theorem Anchor.Super.method {a : Anchor} {d : Nat} {parent : ClassId} (here : a.Super o m d parent)
    (key : Occurrence) :
    Run.superMethod o key m =
      match m.heap.method? parent key.name with
      | none => .error (.failed ⟨.undefinedProperty key.name, key⟩) m
      | some f => .ok (.function (m.heap.bind f a.object).1)
          { m with heap := (m.heap.bind f a.object).2 } := by
  have distance : Run.distance? o m = .ok (some d) m := by rw [Run.distance?_eq, here.recorded]
  have super : Run.ask (·.lookUpAt m.current d "super") m = .ok (.ok (.class parent)) m := by
    rw [Run.ask_eq, here.super]
  have this : Run.ask (·.lookUpAt m.current ((d : Int) - 1) "this") m =
      .ok (.ok (.instance a.object)) m := by
    rw [Run.ask_eq, here.this]
  rw [Run.superMethod, Run.bind_of_ok distance]
  dsimp only
  rw [Run.bind_of_ok (show Run.current m = .ok m.current m from rfl), Run.bind_of_ok super,
    Run.bind_of_ok (show Run.ofInternal (.ok (Value.class parent)) m = .ok _ m from rfl),
    Run.bind_of_ok this,
    Run.bind_of_ok (show Run.ofInternal (.ok (Value.instance a.object)) m = .ok _ m from rfl)]
  dsimp only
  rw [Run.bind_of_ok (Run.ask_eq ..)]
  cases m.heap.method? parent key.name <;> rfl

/-! ## Every session -/

/--
Whenever `this` or `super` is looked up, the account of the run anchors it in the innermost method
around it: `this` is the instance to which the method was bound, and `super` finds the superclass that
the declaration of the method's class found. The class of that declaration is the class of the instance
or one above it.
-/
theorem this_and_super_anchored (clock : Nat → Float) (steps : List Session.Step)
    {later earlier : List Moment} {form : MentionForm} {o : Occurrence} {m : Machine}
    (implicit : form = .this ∨ form = .super)
    (lookedUp : (TracedSession.after clock steps).moments =
      later ++ .mention form o m :: earlier) :
    ∃ v ∈ (TracedSession.after clock steps).visits, v.mention? = some (form, o) ∧
      ∃ a : Anchor, a.Holds earlier m v.place.levels ∧
        (form = .this → Run.lookUp o m = .ok (.instance a.object) m) ∧
        (form = .super → ∃ d parent, a.Super o m d parent ∧ ∀ name,
          Run.superMethod o name m =
            match m.heap.method? parent name.name with
            | none => .error (.failed ⟨.undefinedProperty name.name, name⟩) m
            | some f => .ok (.function (m.heap.bind f a.object).1)
                { m with heap := (m.heap.bind f a.object).2 }) := by
  have sound := TracedSession.after_sound clock steps
  obtain ⟨v, visited, here⟩ := sound.lookedUp lookedUp
  obtain ⟨a, holds⟩ := here.anchor implicit
  refine ⟨v, visited, here.mention, a, holds, ?_, ?_⟩
  · rintro rfl
    exact here.this (sound.ruled.lawful v visited) holds
  · rintro rfl
    obtain ⟨d, parent, super⟩ := here.super sound.ruled visited holds
    exact ⟨d, parent, super, super.method⟩

theorem this_and_super_anchored_superCall :
    ∃ later earlier o m, (TracedSession.after (fun _ => 0) superCall).moments =
        later ++ .mention .super o m :: earlier ∧
      ∃ parent object, m.heap.lookUpAt m.current 3 "super" = .ok (.class parent) ∧
        m.heap.lookUpAt m.current 2 "this" = .ok (.instance object) := by
  obtain ⟨later, o, m, earlier, split⟩ : ∃ later o m earlier,
      (TracedSession.after (fun _ => 0) superCall).moments =
        later ++ .mention .super o m :: earlier :=
    TracedSession.exists_mention (by decide +kernel)
  have two : ∀ v ∈ (TracedSession.after (fun _ => 0) superCall).visits,
      v.mention?.map (·.1) = some .super → v.place.distance? "this" = some 2 := by decide +kernel
  obtain ⟨v, visited, mention, a, holds, -, super⟩ :=
    this_and_super_anchored (fun _ => 0) superCall (.inr rfl) split
  obtain ⟨d, parent, here, -⟩ := super rfl
  have distance : v.place.distance? "this" = some (a.inner.length + 1) :=
    holds.method.distance_this
  rw [two v visited (by rw [mention]; rfl)] at distance
  -- The scope for `super` is one further out than that for `this`.
  obtain rfl : d = 3 := by
    have := here.distance
    have := Option.some.inj distance
    omega
  exact ⟨later, earlier, o, m, split, parent, a.object, here.super, here.this⟩

end Lox
