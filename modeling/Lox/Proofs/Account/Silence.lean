import Lox.Proofs.Account.Incidents

/-!
# Incidents that are not noted

Where a scribe notes nothing of an incident, a noted run is the same without it. So steps in which
only such incidents happen are steps of which nothing is told.
-/

namespace Lox

variable {ν α β : Type}

namespace NotedRun

/-! ## Steps of which nothing is told -/

theorem lift_bind (run : Run α) (f : α → Run β) :
    lift (ν := ν) (run >>= f) = lift run >>= fun a => lift (f a) := by
  funext t
  rw [show (lift run >>= fun a => lift (f a)) t =
    EStateM.bind (lift run) (fun a => lift (f a)) t from rfl, EStateM.bind, lift, lift,
    show (run >>= f) t.machine = EStateM.bind run f t.machine from rfl, EStateM.bind]
  cases run t.machine <;> rfl

/-- A run in steps of which nothing is told. -/
theorem bind_of_lift {noted : NotedRun ν α} {run : Run α} {f : α → NotedRun ν β} {g : α → Run β}
    (first : noted = lift run) (rest : ∀ a, f a = lift (g a)) :
    noted >>= f = lift (run >>= g) := by
  rw [lift_bind, first, funext rest]

theorem lift_ofInternal (result : Except InternalFault α) :
    lift (ν := ν) (Run.ofInternal result) = Run.ofInternal result := by
  cases result <;> rfl

theorem lift_ofRuntime (result : Except RuntimeError α) :
    lift (ν := ν) (Run.ofRuntime result) = Run.ofRuntime result := by
  cases result <;> rfl

/-! ## Single incidents -/

variable {scribe : Scribe ν}

theorem note_of_none {incident : Incident} (silent : ∀ m, scribe m incident = none) :
    note scribe incident = pure () := by
  funext t
  rw [note, silent]
  rfl

theorem raise_of_none {statement : Stmt} {value : Value}
    (silent : ∀ m, scribe m (.raised statement value) = none) :
    raise scribe statement value = throw (.returned value) := by
  rw [raise, note_of_none silent, pure_bind]

theorem catchReturn_of_none {call : Invocation}
    (silent : ∀ value m, scribe m (.caught call value) = none) (body : NotedRun ν α) :
    catchReturn scribe call body = Run.catchReturn body := by
  funext t
  rw [catchReturn, Run.catchReturn]
  cases body t with
  | ok a t' => rfl
  | error signal t' =>
    cases signal with
    | returned value => simp only [note_of_none (silent value), pure_bind]; rfl
    | _ => rfl

end NotedRun

/-! ## Incidents of calls -/

/-- Nothing is noted but what happens in calls of functions. -/
structure Scribe.OfCalls (scribe : Scribe ν) : Prop where
  mention : ∀ form o m, scribe m (.mention form o) = none
  declared : ∀ text parent inner made m, scribe m (.declared text parent inner made) = none
  bound : ∀ method object made m, scribe m (.bound method object made) = none

namespace Scribe.OfCalls

open NotedRun

variable {scribe : Scribe ν} (calls : scribe.OfCalls)
include calls

theorem bindTo (object : InstanceId) (method : FunctionId) :
    bindTo scribe object method = lift (Run.change (·.bind method object)) := by
  simp only [NotedRun.bindTo, note_of_none (calls.bound _ _ _), pure_bind, bind_pure]

theorem property (object : Value) (key : Occurrence) :
    property scribe object key = lift (Run.property object key) := by
  cases object with
  | «instance» i =>
    refine bind_of_lift rfl fun found => bind_of_lift (lift_ofRuntime found).symm fun member => ?_
    cases member with
    | field value => rfl
    | method f => exact bind_of_lift (calls.bindTo i f) fun _ => rfl
  | _ => rfl

theorem superMethod (keyword method : Occurrence) :
    superMethod scribe keyword method = lift (Run.superMethod keyword method) := by
  refine bind_of_lift rfl fun distance => ?_
  cases distance with
  | none => rfl
  | some distance =>
    refine bind_of_lift rfl fun e => bind_of_lift rfl fun superclass =>
      bind_of_lift (lift_ofInternal superclass).symm fun superclass =>
        bind_of_lift rfl fun object => bind_of_lift (lift_ofInternal object).symm fun object => ?_
    cases superclass with
    | «class» c =>
      cases object with
      | «instance» i =>
        refine bind_of_lift rfl fun found => ?_
        cases found with
        | none => rfl
        | some f => exact bind_of_lift (calls.bindTo i f) fun _ => rfl
      | _ => rfl
    | _ => rfl

theorem declareClass (text : ClassText) :
    declareClass scribe text =
      lift (Run.declareClass text.name text.superclass text.methods) := by
  have parents : text.superclass.mapM (superclassOf scribe) =
      lift (text.superclass.mapM Run.superclassOf) := by
    cases text.superclass with
    | none => rfl
    | some mention =>
      refine bind_of_lift ?_ fun _ => rfl
      rw [superclassOf, note_of_none (calls.mention _ _), pure_bind]
  refine bind_of_lift parents fun parent => bind_of_lift rfl fun _ => bind_of_lift rfl fun e => ?_
  have rest : ∀ inner, (do
      let table ← lift (Run.methodTable inner text.methods)
      let made ← lift (Run.change (·.newClass ⟨text.name.name, parent, table⟩))
      note scribe (.declared text parent inner made)
      let holder ← Run.ofRuntime (← lift (Run.ask (·.holder e text.name)))
      lift (Run.defineIn holder text.name.name (.class made))) = lift (ν := ν) (do
      let table ← Run.methodTable inner text.methods
      let made ← Run.change (·.newClass ⟨text.name.name, parent, table⟩)
      let holder ← Run.ofRuntime (← Run.ask (·.holder e text.name))
      Run.defineIn holder text.name.name (.class made)) := by
    refine fun inner => bind_of_lift rfl fun table => bind_of_lift rfl fun made => ?_
    rw [note_of_none (calls.declared _ _ _ _), pure_bind]
    exact bind_of_lift rfl fun holder => bind_of_lift (lift_ofRuntime holder).symm fun _ => rfl
  cases parent with
  | none => exact rest e
  | some c => exact bind_of_lift rfl rest

end Scribe.OfCalls

end Lox
