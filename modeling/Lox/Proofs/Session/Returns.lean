import Lox.Proofs.Account.Erasure
import Lox.Proofs.Returns.Evaluation
import Lox.Proofs.Session.Chronicle

/-!
# Returns in sessions

What the resolver checks about `return` and initializers is what runs rely on: in every run of an
accepted program, whatever ran before it, the call of the innermost function around a `return` catches
it, and calls of initializers yield the instances that they are bound to.
-/

namespace Lox

/-! ## Every history -/

theorem Heap.Orderly.newNative {h : Heap} (orderly : h.Orderly) {n : Native}
    (clock : n.body = .clock) : h.Grows (h.newNative n).2 := by
  have extended : h.Extends (h.newNative n).2 :=
    ⟨Nat.le_refl _, fun _ _ => rfl, Nat.le_refl _, fun _ _ => rfl⟩
  refine ⟨extended, extended.orderly ?_ orderly.functions orderly.environments orderly.instances⟩
  intro other
  rw [nativeAt_newNative]
  split
  · exact clock
  · exact orderly.natives other

theorem Closure.default_permitted : (default : Closure).Permitted :=
  ⟨.function, by simp, by rintro ⟨⟩, Place.topLevel.withFunction .function, rfl, by rintro _ ⟨⟩⟩

theorem Heap.empty_orderly : Heap.empty.Orderly where
  natives _ := rfl
  functions _ := Closure.default_permitted
  environments _ := .empty
  instances _ := .empty

/-- Runs a program that is accepted, with an account of its calls. -/
def Session.watch (limits : Limits) (s : Session) (program : Program) : Outcome × Watched :=
  NotedRun.interpret Episode.scribe limits.loops limits.depth program ⟨s.start program, []⟩

/-- The account changes nothing. -/
theorem Session.watch_eq (limits : Limits) (s : Session) (program : Program) :
    let ended := s.watch limits program
    interpret limits.loops limits.depth program (s.start program) = (ended.1, ended.2.machine) :=
  interpret_noted Episode.scribe limits.loops limits.depth program ⟨s.start program, []⟩

/-- What every step of a session keeps. The globals are no environment of a method. -/
structure Session.Orderly (s : Session) : Prop where
  heap : s.machine.heap.Orderly
  globals : s.machine.globals.index < s.machine.heap.environments.size
  noThis : ∀ object, (s.machine.heap.environmentAt s.machine.globals).names.find? "this" ≠
    some (.instance object)

namespace Session

theorem initial_orderly (clock : Nat → Float) : (initial clock).Orderly where
  heap := by
    have globals : Heap.empty.Grows (Heap.empty.newEnvironment ⟨.empty, none⟩).2 :=
      Heap.empty_orderly.newEnvironment .empty
    have native := globals.orderly.newNative (n := ⟨"clock", 0, .clock⟩) rfl
    have ordinary : IsOrdinary "clock" := ⟨by decide, by decide⟩
    have proper : ∀ h, (Value.native ⟨0⟩).Proper h := fun _ => trivial
    exact (native.orderly.define ⟨0⟩ ordinary (proper _)).orderly
  globals := Nat.one_pos
  noThis := by
    rintro _ ⟨⟩

namespace Orderly

variable {s : Session} (orderly : s.Orderly)
include orderly

/-- A value from outside takes the place of no receiver, whatever its name is. -/
theorem define (name : String) {value : Value} (scalar : value.IsScalar) :
    (s.define name value).Orderly := by
  obtain ⟨heap, globals, noThis⟩ := orderly
  refine ⟨heap.define_free noThis name (scalar.proper _), ?_, ?_⟩
  · exact Nat.lt_of_lt_of_eq globals (s.machine.heap.size_define ..).symm
  · intro object found
    have found := (Heap.find?_define ..).symm.trans found
    split at found
    · split at found
      · rw [Option.some.inj found] at scalar
        exact scalar
      · exact noThis object found
    · exact noThis object found

/-- What a run of an accepted program does, with its account. -/
theorem watched (limits : Limits) {program : Program} {first last : Nat}
    (accepted : program.Accepted first last) :
    let ended := s.watch limits program
    (s.start program).Leads ended.2.machine ∧ Settled ended.2.notes ∧
      ended.1 ≠ .escaped .strayReturn :=
  WatchedRun.interpret_settles (w := ⟨s.start program, []⟩) limits.loops limits.depth
    (fun _ member => accepted.permitted member) orderly.heap .nil

theorem close {limits : Limits} {source : String} {program : Program}
    (accepted : s.accepted? limits source = some program) :
    (s.close source
      (interpret limits.loops limits.depth program (s.start program)).2).Orderly := by
  obtain ⟨leads, -, -⟩ := orderly.watched limits (accepted?_sound accepted)
  rw [s.watch_eq limits program]
  generalize (s.watch limits program).2.machine = machine at leads
  obtain ⟨⟨extended, heap⟩, globals⟩ := leads
  have unchanged := extended.this s.machine.globals orderly.globals
  refine ⟨heap, ?_, fun object => ?_⟩
  · change machine.globals.index < machine.heap.environments.size
    rw [globals]
    exact Nat.lt_of_lt_of_le orderly.globals extended.environmentCount
  · change (machine.heap.environmentAt machine.globals).names.find? "this" ≠ _
    rw [globals]
    exact unchanged ▸ orderly.noThis object

end Orderly

theorem orderly_invariant : Invariant Orderly where
  define orderly name _ scalar := orderly.define name scalar
  run orderly _ _ _ accepted := orderly.close accepted

theorem after_orderly (clock : Nat → Float) (steps : List Step) : (after clock steps).Orderly :=
  orderly_invariant.after (initial_orderly clock) steps

/-! ## Every run -/

/--
The run of an accepted program after any history ends in no `return`. Each `return` that is raised is
caught at once, by the innermost call that is open, and its function is the innermost one around the
statement. A call of an initializer begins with a closure whose own environment binds `this` to an
instance, catches no value but `nil`, and yields that instance if it completes.
-/
theorem run_disciplined (clock : Nat → Float) (earlier : List Step) (limits : Limits)
    (source : String) {program : Program}
    (accepted : (after clock earlier).accepted? limits source = some program) :
    let s := after clock earlier
    let ended := s.watch limits program
    let account := ended.2.notes
    interpret limits.loops limits.depth program (s.start program) = (ended.1, ended.2.machine) ∧
    (s.run limits source).1.verdict ≠ .escaped .strayReturn ∧
    (∀ later before statement value, account = later ++ .raised statement value :: before →
      ∃ rest call, later = rest ++ [.caught call value] ∧
        (openCalls before).head? = some call ∧ call.closure.declaration.Holds statement) ∧
    (∀ call, .entered call ∈ account → call.closure.isInitializer = true →
      ∃ object, call.receiver = some (.instance object)) ∧
    (∀ call value, .completed call value ∈ account → call.closure.isInitializer = true →
      ∃ object, call.receiver = some (.instance object) ∧ value = .instance object) ∧
    (∀ call value, .caught call value ∈ account → call.closure.isInitializer = true →
      value = .nil) := by
  have plain := (after clock earlier).run_eq limits source
  rw [accepted] at plain
  have same := (after clock earlier).watch_eq limits program
  obtain ⟨-, settled, inside⟩ :=
    (after_orderly clock earlier).watched limits (accepted?_sound accepted)
  refine ⟨same, ?_, fun _ _ _ _ => settled.raised_caught, fun _ => settled.entered_bound, ?_,
    fun _ _ => settled.caught_nil⟩
  · rw [plain.2.1, same]
    -- A `return` that leaves the program would have no call around it.
    generalize ((after clock earlier).watch limits program).1 = outcome at inside
    cases outcome with
    | escaped escape => exact fun stray => inside (congrArg _ (Verdict.escaped.inj stray))
    | finished | failed => exact Verdict.noConfusion
  · intro call value completed initializer
    -- The instance that the initializer was entered with is the one that it yields.
    obtain ⟨object, receiver⟩ :=
      settled.entered_bound (settled.entered_of_completed completed) initializer
    have yielded := settled.completed_receiver completed initializer
    exact ⟨object, receiver, Option.some.inj (yielded.symm.trans receiver)⟩

/-- The call of an initializer ends a `return`. -/
def endsInitializer : Episode → Bool
  | .caught call _ => call.closure.isInitializer
  | _ => false

/-- The call of an initializer yields a value. -/
def initializes : Episode → Bool
  | .completed call _ => call.closure.isInitializer
  | _ => false

/-- A class with an initializer that returns early, and one that adds to it. -/
def earlyReturns : String :=
  "class A \x7b init(n) \x7b while (true) \x7b \x7b return; \x7d \x7d \x7d \x7d " ++
  "class B < A \x7b init(n) \x7b super.init(n); if (n) return; \x7d \x7d"

/-- A new instance, and a second call of its initializer. -/
def initializedTwice : String := "var b = B(true); var again = b.init; again(false);"

def afterEarlyReturns : Session := after (fun _ => 0) [.run ⟨60, 60, 60, 60⟩ earlyReturns]

theorem run_disciplined_initializedTwice :
    ∃ program, afterEarlyReturns.accepted? ⟨60, 60, 60, 60⟩ initializedTwice = some program ∧
      (afterEarlyReturns.run ⟨60, 60, 60, 60⟩ initializedTwice).1.verdict ≠
        .escaped .strayReturn ∧
      (∃ call, .caught call .nil ∈ (afterEarlyReturns.watch ⟨60, 60, 60, 60⟩ program).2.notes ∧
        call.closure.isInitializer = true) ∧
      ∃ call object, .completed call (.instance object) ∈
          (afterEarlyReturns.watch ⟨60, 60, 60, 60⟩ program).2.notes ∧
        call.closure.isInitializer = true ∧ call.receiver = some (.instance object) := by
  have noted : (afterEarlyReturns.accepted? ⟨60, 60, 60, 60⟩ initializedTwice).any (fun program =>
      let account := (afterEarlyReturns.watch ⟨60, 60, 60, 60⟩ program).2.notes
      account.any endsInitializer && account.any initializes) = true := by
    decide +kernel
  simp only [Option.any_eq_true, Bool.and_eq_true, List.any_eq_true] at noted
  obtain ⟨program, accepted, ⟨first, caught, ends⟩, second, completed, initializes⟩ := noted
  have disciplined := run_disciplined (fun _ => 0) [.run ⟨60, 60, 60, 60⟩ earlyReturns]
    ⟨60, 60, 60, 60⟩ initializedTwice accepted
  rw [← afterEarlyReturns] at disciplined
  obtain ⟨-, inside, -, -, receivers, silent⟩ := disciplined
  refine ⟨program, accepted, inside, ?_, ?_⟩
  · cases first with
    | caught call value =>
      obtain rfl := silent call value caught ends
      exact ⟨call, caught, ends⟩
    | entered | raised | completed => cases ends
  · cases second with
    | completed call value =>
      obtain ⟨object, receiver, rfl⟩ := receivers call value completed initializes
      exact ⟨call, object, completed, initializes, receiver⟩
    | entered | raised | caught => cases initializes

end Session

end Lox
