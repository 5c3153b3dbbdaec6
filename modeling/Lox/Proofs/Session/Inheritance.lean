import Lox.Proofs.Evaluation.Evolution
import Lox.Proofs.Evaluation.Members
import Lox.Proofs.Trace.Sessions

/-!
# Inheritance in sessions

Nothing checks that a class is not above itself: a name may be declared again as a subclass of what it
stood for. But a superclass is there before its subclass, so that in every history the chains end, and
a method is that of the nearest class that has it, for good.
-/

namespace Lox

/-- The heap of a session in which nothing has run yet. -/
def Heap.fresh : Heap := (Machine.initial fun _ => 0).heap

/-- The heap comes about from the fresh one by steps that mention only what is there. -/
def Heap.Reached (h : Heap) : Prop := Heap.fresh.Evolves h

theorem Heap.fresh_founded : Heap.fresh.Founded := by
  have globals : (Heap.empty.newEnvironment ⟨.empty, none⟩).2.Founded :=
    Founded.empty.newEnvironment .empty
  have native := globals.newNative (n := ⟨"clock", 0, .clock⟩) rfl
  exact native.define ⟨0⟩ "clock" (show (Value.native ⟨0⟩).OnHeap _ from trivial)

theorem Heap.Reached.founded {h : Heap} (reached : h.Reached) : h.Founded :=
  fresh_founded.evolves reached

namespace Session

/-- Whatever happens to a session from outside, its heap evolves. -/
theorem evolves_invariant {h : Heap} (founded : h.Founded) :
    Invariant fun s => h.Evolves s.machine.heap where
  define {s} evolves name value scalar :=
    evolves.tail (.define s.machine.globals name scalar.onHeap)
  run {s} evolves {limits} {_} {program} _ := by
    have ran : Run.Lawful (s.start program) (program.forM (Lox.execute limits.loops limits.depth))
        fun _ _ => True := .forM (evaluation_lawful limits.loops limits.depth).2 program
    have left := ran.evolves (founded.evolves evolves)
    refine Relation.ReflTransGen.trans evolves ?_
    unfold Run.left at left
    rw [close, interpret]
    dsimp only at left ⊢
    generalize program.forM (Lox.execute limits.loops limits.depth) (s.start program) = result at left
    cases result with
    | ok _ _ => exact left
    | error _ _ => exact left

theorem steps_evolve {s : Session} (founded : s.machine.heap.Founded) (later : List Step) :
    s.machine.heap.Evolves (later.foldl step s).machine.heap :=
  (evolves_invariant founded).steps .refl later

theorem after_reached (clock : Nat → Float) (steps : List Step) :
    (after clock steps).machine.heap.Reached :=
  (evolves_invariant Heap.fresh_founded).after
    (show Heap.fresh.Evolves (initial clock).machine.heap from .refl) steps

end Session

/--
In every history of a session no class is above itself, and a lookup of a method goes up a chain
without repetition and takes the first class that has the name, or finds nothing if none of them has.
Reading a property of an instance yields its field, else that method with `this` bound to the
instance, else an error. The methods that a class has are those that its declaration gave it, of two
with one name the later, and whatever happens afterwards leaves classes, chains and methods as they are.
-/
theorem methods_nearest_first :
    (∀ clock steps, (Session.after clock steps).machine.heap.Reached ∧
      ∀ later, (Session.after clock steps).machine.heap.Evolves
        (Session.after clock (steps ++ later)).machine.heap) ∧
    (∀ loops depth (m : Machine), m.heap.Reached →
      (∀ e, m.heap.Evolves ((evaluate loops depth e).left m).heap) ∧
      ∀ s, m.heap.Evolves ((execute loops depth s).left m).heap) ∧
    (∀ h : Heap, h.Reached →
      (∀ c, ¬ Relation.TransGen (fun a b => (h.classAt a).superclass = some b) c c) ∧
      (∀ c : ClassId, c.index < h.classes.size → ∃ path, h.NearestFirst c path) ∧
      ∀ h', h.Evolves h' → h.Settles h') ∧
    (∀ (m : Machine) (i : InstanceId) (name : Occurrence), m.heap.Reached →
      i.index < m.heap.instances.size →
      ∃ path, m.heap.NearestFirst (m.heap.instanceAt i).ofClass path ∧ m.Reads i path name) ∧
    ∀ loops depth m m' name superclass methods,
      execute loops depth (.class name superclass methods) m = .ok () m' →
      ∃ parent, superclass.isSome = parent.isSome ∧
        (∀ mention ∈ superclass, ∀ k ∈ parent, Run.lookUp mention m = .ok (.class k) m) ∧
        Run.Declared m.heap m'.heap name parent methods := by
  refine ⟨fun clock steps => ⟨Session.after_reached clock steps, fun later => ?_⟩, ?_, ?_, ?_, ?_⟩
  · have founded := (Session.after_reached clock steps).founded
    rw [Session.after, Session.after, List.foldl_append]
    exact Session.steps_evolve founded later
  · intro loops depth m reached
    obtain ⟨evaluates, executes⟩ := evaluation_lawful loops depth
    exact ⟨fun e => (evaluates e m).evolves reached.founded,
      fun s => (executes s m).evolves reached.founded⟩
  · intro h reached
    have founded := reached.founded
    exact ⟨founded.acyclic, fun c there => founded.nearestFirst there,
      fun h' evolves => founded.settles evolves⟩
  · intro m i name reached there
    have founded := reached.founded
    obtain ⟨path, nearest⟩ := founded.nearestFirst (founded.ofClass i there)
    exact ⟨path, nearest, nearest.reads name⟩
  · intro loops depth m m' name superclass methods declared
    cases depth with
    | zero => cases declared
    | succ depth =>
      rw [execute] at declared
      exact Run.declareClass_ok declared

/-- A class is declared as a subclass of a subclass of what its name stood for. -/
def circular : String :=
  "class A \x7b m() \x7b return 1; \x7d m() \x7b return 2; \x7d \x7d class B < A \x7b n() \x7b\x7d \x7d " ++
  "class A < B \x7b n() \x7b return 3; \x7d \x7d var a = A(); a.x = 4;"

def afterCircular : Session := .after (fun _ => 0) [.run ⟨60, 60, 60, 60⟩ circular]

def nameM : Token := ⟨.identifier, "m", .nil, 1⟩

def classA : Token := ⟨.identifier, "A", .nil, 1⟩

def noMethods : Stmt := .class classA none []

theorem methods_nearest_first_circular :
    (afterCircular.machine.heap.Reached ∧
      afterCircular.machine.heap.NearestFirst ⟨2⟩ [⟨2⟩, ⟨1⟩, ⟨0⟩]) ∧
    (∃ g h', Run.property (.instance ⟨0⟩) nameM afterCircular.machine =
        .ok (.function g) { afterCircular.machine with heap := h' } ∧
      afterCircular.machine.heap.Binds h' ⟨1⟩ g ⟨0⟩) ∧
    ∃ m', execute 60 60 noMethods afterCircular.machine = .ok () m' ∧
      Run.Declared afterCircular.machine.heap m'.heap classA none [] ∧
      afterCircular.machine.heap.Settles m'.heap := by
  obtain ⟨histories, runs, lookups, reads, declares⟩ := methods_nearest_first
  have reached : afterCircular.machine.heap.Reached := by
    rw [afterCircular]
    exact (histories (fun _ => 0) [.run ⟨60, 60, 60, 60⟩ circular]).1
  obtain ⟨-, nearest, settles⟩ := lookups _ reached
  -- all that is needed of the heap, so that the session is evaluated once
  obtain ⟨⟨there, second, last, top⟩, instances, ofClass, field, own, passed⟩ :
      (2 < afterCircular.machine.heap.classes.size ∧
        (afterCircular.machine.heap.classAt ⟨2⟩).superclass = some ⟨1⟩ ∧
        (afterCircular.machine.heap.classAt ⟨1⟩).superclass = some ⟨0⟩ ∧
        (afterCircular.machine.heap.classAt ⟨0⟩).superclass = none) ∧
      0 < afterCircular.machine.heap.instances.size ∧
      (afterCircular.machine.heap.instanceAt ⟨0⟩).ofClass = ⟨2⟩ ∧
      ((afterCircular.machine.heap.instanceAt ⟨0⟩).fields.find? nameM.lexeme).isNone = true ∧
      afterCircular.machine.heap.ownMethod? nameM.lexeme ⟨0⟩ = some ⟨1⟩ ∧
      ∀ c ∈ [(⟨2⟩ : ClassId), ⟨1⟩], afterCircular.machine.heap.ownMethod? nameM.lexeme c = none := by
    decide +kernel
  obtain ⟨path, first⟩ := nearest ⟨2⟩ there
  obtain rfl : path = [⟨2⟩, ⟨1⟩, ⟨0⟩] :=
    first.chain.unique (.link second (.link last (.last top)))
  refine ⟨⟨reached, first⟩, ?_, ?_⟩
  · obtain ⟨path, first', read⟩ := reads afterCircular.machine ⟨0⟩ nameM reached instances
    rw [ofClass] at first'
    obtain rfl := first'.chain.unique first.chain
    exact read.method (Option.isNone_iff_eq_none.1 field) [⟨2⟩, ⟨1⟩] ⟨0⟩ [] ⟨1⟩ rfl own passed
  · have finishes : EStateM.run' (execute 60 60 noMethods) afterCircular.machine = some () := by
      decide +kernel
    cases ran : execute 60 60 noMethods afterCircular.machine with
    | error signal m' =>
      delta EStateM.run' EStateM.run at finishes
      rw [ran] at finishes
      cases finishes
    | ok _ m' =>
      have evolves := (runs 60 60 _ reached).2 noMethods
      rw [Run.left, ran] at evolves
      obtain ⟨parent, both, -, declared⟩ := declares 60 60 _ m' _ _ _ ran
      cases parent with
      | none => exact ⟨m', rfl, declared, settles _ evolves⟩
      | some c => cases both

end Lox
