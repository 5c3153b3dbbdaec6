import Lox.Proofs.Lockstep.Alike

/-!
# Runs in step

A traced run and a lexical run go in step if they end alike, in states that are related again. There is
one exception: the traced run may end at an assignment in the initializer of its own variable.
-/

namespace Lox

open Lexical (Names Store LexicalRun)

variable {V : Visit → Prop} {D : Distances} {α β γ δ : Type}

/-- The run ended at an assignment to a local variable in its own initializer. -/
def Excused (V : Visit → Prop) (signal : Signal) (t : Traced) : Prop :=
  ∃ o m earlier v, signal = .internal (.unresolvedBinding o.name 0) ∧
    t.notes = .mention .assignment o m :: earlier ∧ V v ∧
    v.subject = .mention .assignment o ∧ v.place.inOwnInitializer o.name = true

/-- No internal fault, and no value that the world does not know. -/
def Signal.Fair (W : World) : Signal → Prop
  | .returned value => W.Fits value
  | .failed _ | .exhausted => True
  | .internal _ | .unresolvedSuper => False

namespace Joint

/-- From related states the two runs go in step; `Q` holds of the states and results at the end. -/
def Lockstep (j : Joint V D) (o : Option EnvironmentId) (run : TracedRun α)
    (reference : LexicalRun β) (Q : Joint V D → α → β → Prop) : Prop :=
  (∃ a b j', run j.traced = .ok a j'.traced ∧ reference j.store = .ok b j'.store ∧
    j.Before o j' ∧ Q j' a b) ∨
  ∃ signal j', run j.traced = .error signal j'.traced ∧ j.Before o j' ∧
    (Excused V signal j'.traced ∨ reference j.store = .error signal j'.store ∧ signal.Fair j'.world)

namespace Lockstep

variable {j : Joint V D} {o : Option EnvironmentId} {run : TracedRun α} {reference : LexicalRun β}
  {Q : Joint V D → α → β → Prop}

theorem pure {a : α} {b : β} (holds : Q j a b) : j.Lockstep o (pure a) (pure b) Q :=
  .inl ⟨a, b, j, rfl, rfl, .refl j, holds⟩

theorem throw {signal : Signal} (fair : signal.Fair j.world) :
    j.Lockstep o (throw signal) (throw signal) Q :=
  .inr ⟨signal, j, rfl, .refl j, .inr ⟨rfl, fair⟩⟩

/-- Two steps are one if what may change in the second is no change to what was there before both. -/
theorem bindWith {o' : Option EnvironmentId} {f : α → TracedRun γ} {g : β → LexicalRun δ}
    {R : Joint V D → γ → δ → Prop}
    (joined : ∀ {j' j''}, j.Before o j' → j'.Before o' j'' → j.Before o j'')
    (first : j.Lockstep o run reference Q)
    (second : ∀ a b j', j.Before o j' → Q j' a b → j'.Lockstep o' (f a) (g b) R) :
    j.Lockstep o (run >>= f) (reference >>= g) R := by
  have left : (run >>= f) j.traced = EStateM.bind run f j.traced := rfl
  have right : (reference >>= g) j.store = EStateM.bind reference g j.store := rfl
  rw [Lockstep, left, right, EStateM.bind, EStateM.bind]
  rcases first with ⟨a, b, j', here, there, before, holds⟩ | ⟨signal, j', here, before, ended⟩
  · rw [here, there]
    rcases second a b j' before holds with
      ⟨c, d, j'', here', there', before', holds'⟩ | ⟨signal, j'', here', before', ended⟩
    · exact .inl ⟨c, d, j'', here', there', joined before before', holds'⟩
    · exact .inr ⟨signal, j'', here', joined before before', ended⟩
  · rw [here]
    refine .inr ⟨signal, j', rfl, before, ended.imp id fun fair => ?_⟩
    rw [fair.1]
    exact ⟨rfl, fair.2⟩

theorem bind {f : α → TracedRun γ} {g : β → LexicalRun δ} {R : Joint V D → γ → δ → Prop}
    (first : j.Lockstep o run reference Q)
    (second : ∀ a b j', j.Before o j' → Q j' a b → j'.Lockstep o (f a) (g b) R) :
    j.Lockstep o (run >>= f) (reference >>= g) R :=
  bindWith Joint.Before.trans first second

theorem mono {R : Joint V D → α → β → Prop} (steps : j.Lockstep o run reference Q)
    (implies : ∀ a b j', j.Before o j' → Q j' a b → R j' a b) : j.Lockstep o run reference R := by
  rcases steps with ⟨a, b, j', here, there, before, holds⟩ | failed
  · exact .inl ⟨a, b, j', here, there, before, implies a b j' before holds⟩
  · exact .inr failed

theorem weaken (steps : j.Lockstep none run reference Q) : j.Lockstep o run reference Q := by
  rcases steps with ⟨a, b, j', here, there, before, holds⟩ | ⟨signal, j', here, before, ended⟩
  · exact .inl ⟨a, b, j', here, there, before.weaken, holds⟩
  · exact .inr ⟨signal, j', here, before.weaken, ended⟩

theorem map {f : α → γ} {g : β → δ} {R : Joint V D → γ → δ → Prop}
    (steps : j.Lockstep o run reference Q)
    (mapped : ∀ a b j', j.Before o j' → Q j' a b → R j' (f a) (g b)) :
    j.Lockstep o (f <$> run) (g <$> reference) R :=
  steps.bind fun a b j' before holds => pure (mapped a b j' before holds)

/-- The runs start with steps that give no name to an environment that is there. -/
theorem andThen {f : α → TracedRun γ} {g : β → LexicalRun δ} {R : Joint V D → γ → δ → Prop}
    (first : j.Lockstep none run reference Q)
    (second : ∀ a b j', j.Before none j' → Q j' a b → j'.Lockstep o (f a) (g b) R) :
    j.Lockstep o (run >>= f) (reference >>= g) R := by
  have kept : j.Lockstep none run reference fun j' a b => j.Before none j' ∧ Q j' a b := by
    rcases first with ⟨a, b, j', here, there, before, holds⟩ | failed
    · exact .inl ⟨a, b, j', here, there, before, before, holds⟩
    · exact .inr failed
  exact kept.weaken.bind fun a b j' _ kept => second a b j' kept.1 kept.2

/-- The runs start with steps that change nothing. -/
theorem of_eq {run' : TracedRun α} {reference' : LexicalRun β}
    (steps : j.Lockstep o run' reference' Q) (left : run j.traced = run' j.traced)
    (right : reference j.store = reference' j.store) : j.Lockstep o run reference Q := by
  rw [Lockstep, left, right]
  exact steps

/-- The traced run starts with reading something off the heap. -/
theorem ask {f : Heap → γ} {k : γ → TracedRun α} (steps : j.Lockstep o (k (f j.heap)) reference Q) :
    j.Lockstep o (NotedRun.lift (Run.ask f) >>= k) reference Q :=
  steps.of_eq rfl rfl

/-- The lexical run starts with reading something off the store. -/
theorem asked {f : Store → γ} {k : γ → LexicalRun β} (steps : j.Lockstep o run (k (f j.store)) Q) :
    j.Lockstep o run (LexicalRun.ask f >>= k) Q :=
  steps.of_eq rfl rfl

theorem current {k : EnvironmentId → TracedRun α} (steps : j.Lockstep o (k j.current) reference Q) :
    j.Lockstep o (NotedRun.lift Run.current >>= k) reference Q :=
  steps.of_eq rfl rfl

theorem distance {mention : Occurrence} {k : Option Nat → TracedRun α}
    (steps : j.Lockstep o (k (D.find? mention.id)) reference Q) :
    j.Lockstep o (NotedRun.lift (Run.distance? mention) >>= k) reference Q := by
  refine steps.of_eq ?_ rfl
  change k (j.traced.machine.distances.find? mention.id) j.traced = _
  rw [j.related.distances]

/-- The traced run goes on with what it looked up. -/
theorem ofInternal {result : Except InternalFault γ} {a : γ} {k : γ → TracedRun α}
    (found : result = .ok a) (steps : j.Lockstep o (k a) reference Q) :
    j.Lockstep o (Run.ofInternal result >>= k) reference Q := by
  subst found
  exact steps.of_eq rfl rfl

/-- The lexical run ends with what is known already. -/
theorem returning {c : δ} {R : Joint V D → α → δ → Prop} (steps : j.Lockstep o run reference Q)
    (holds : ∀ a b j', j.Before o j' → Q j' a b → R j' a c) :
    j.Lockstep o run (reference >>= fun _ => Pure.pure c) R := by
  rw [← bind_pure run]
  exact steps.bind fun a b j' before result => pure (holds a b j' before result)

theorem fail {token : Occurrence} {fault : RuntimeFault} :
    j.Lockstep o (Run.fail token fault) (Run.fail token fault) Q :=
  throw trivial

theorem operation {operator : Occurrence} {result : Except RuntimeFault Value}
    {Q : Joint V D → Value → Value → Prop} (holds : ∀ value, result = .ok value → Q j value value) :
    j.Lockstep o (Run.operation operator result) (Run.operation operator result) Q := by
  cases result with
  | ok value => exact pure (holds value rfl)
  | error fault => exact fail

/-! ## Control -/

theorem catchReturn {run : TracedRun Unit} {Q : Joint V D → Unit → β → Prop}
    (steps : j.Lockstep o run reference Q) :
    j.Lockstep o (Run.catchReturn run) (Run.catchReturn reference) fun j' a b =>
      b = a ∧ j'.world.Fits a := by
  rw [Lockstep, Run.catchReturn, Run.catchReturn]
  rcases steps with ⟨a, b, j', here, there, before, -⟩ | ⟨signal, j', here, before, ended⟩
  · rw [here, there]
    exact .inl ⟨.nil, .nil, j', rfl, rfl, before, rfl, trivial⟩
  · rw [here]
    rcases ended with excused | ⟨there, fair⟩
    · obtain ⟨_, _, _, _, rfl, -⟩ := id excused
      exact .inr ⟨_, j', rfl, before, .inl excused⟩
    · rw [there]
      cases signal with
      | returned value => exact .inl ⟨value, value, j', rfl, rfl, before, rfl, fair⟩
      | _ => exact .inr ⟨_, j', rfl, before, .inr ⟨rfl, fair⟩⟩

/-- A loop, whose condition and body keep an invariant. -/
theorem repeatWhile {condition : TracedRun Bool} {condition' : LexicalRun Bool}
    {body : TracedRun Unit} {body' : LexicalRun Unit} (I : Joint V D → Prop)
    (conditions : ∀ j, I j → j.Lockstep o condition condition' fun j' a b => b = a ∧ I j')
    (bodies : ∀ j, I j → j.Lockstep o body body' fun j' _ _ => I j') (limit : Nat) (holds : I j) :
    j.Lockstep o (Run.repeatWhile condition body limit) (Run.repeatWhile condition' body' limit)
      fun j' _ _ => I j' := by
  induction limit generalizing j with
  | zero => exact throw trivial
  | succ limit inductionHypothesis =>
    refine (conditions j holds).bind fun a b j' before reached => ?_
    obtain ⟨rfl, holds⟩ := reached
    cases b with
    | true => exact (bodies j' holds).bind fun _ _ j'' _ holds => inductionHypothesis holds
    | false => exact pure holds

theorem mapM {f : γ → TracedRun α} {g : γ → LexicalRun α} (I : Joint V D → Prop)
    (P : World → α → Prop) (later : ∀ W W' a, W.Extends o W' → P W a → P W' a) (items : List γ)
    (each : ∀ x ∈ items, ∀ j, I j → j.Lockstep o (f x) (g x) fun j' a b =>
      (b = a ∧ P j'.world a) ∧ I j') (holds : I j) :
    j.Lockstep o (items.mapM f) (items.mapM g) fun j' as bs =>
      (bs = as ∧ ∀ a ∈ as, P j'.world a) ∧ I j' := by
  induction items generalizing j with
  | nil => exact pure ⟨⟨rfl, by simp⟩, holds⟩
  | cons x rest inductionHypothesis =>
    obtain ⟨here, others⟩ := List.forall_mem_cons.1 each
    rw [List.mapM_cons, List.mapM_cons]
    refine (here j holds).bind fun a b j' before reached => ?_
    obtain ⟨⟨rfl, property⟩, holds⟩ := reached
    refine (inductionHypothesis others holds).bind fun as bs j'' before reached => ?_
    obtain ⟨⟨rfl, properties⟩, holds⟩ := reached
    exact pure ⟨⟨rfl, List.forall_mem_cons.2 ⟨later _ _ _ before.world property, properties⟩⟩, holds⟩

end Lockstep

end Joint

end Lox
