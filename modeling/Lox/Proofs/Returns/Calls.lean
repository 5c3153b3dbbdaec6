import Lox.Proofs.Returns.Steps

/-!
# Watched calls

The account of a watched run stays settled: what a call adds to it is a matter of the function
called, whatever the statements of its body do.
-/

namespace Lox

variable {α β : Type}

/-- What a run that completes does to a machine and its account. -/
structure Watched.Leads (w w' : Watched) : Prop where
  machine : w.machine.Leads w'.machine
  settled : Settled w'.notes
  calls : openCalls w'.notes = openCalls w.notes

theorem Watched.Leads.trans {w w' w'' : Watched} (first : w.Leads w') (second : w'.Leads w'') :
    w.Leads w'' :=
  ⟨first.machine.trans second.machine, second.settled, second.calls.trans first.calls⟩

/--
The results of a watched run. Where it ends in a `return`, the statement and the value that it
raised are as `R` says.
-/
inductive WatchedRun.Ends (w : Watched) (R : Stmt → Value → Prop) (Q : Heap → α → Prop) :
    EStateM.Result Signal Watched α → Prop
  | ok {a : α} {w' : Watched} : w.Leads w' → Q w'.machine.heap a → Ends w R Q (.ok a w')
  | returned {statement : Stmt} {v : Value} {machine : Machine} {earlier : List Episode} :
      w.Leads ⟨machine, earlier⟩ → R statement v → v.Proper machine.heap →
      Ends w R Q (.error (.returned v) ⟨machine, .raised statement v :: earlier⟩)
  | stopped {signal : Signal} {w' : Watched} :
      w.machine.Leads w'.machine → Settled w'.notes → (∀ v, signal ≠ .returned v) →
      Ends w R Q (.error signal w')

/-- The watched run keeps the heap orderly and the account settled, and ends as described. -/
def WatchedRun.Settles (w : Watched) (watched : WatchedRun α) (R : Stmt → Value → Prop)
    (Q : Heap → α → Prop) : Prop :=
  w.machine.heap.Orderly → Settled w.notes → WatchedRun.Ends w R Q (watched w)

namespace WatchedRun

open NotedRun

variable {w w' : Watched} {R R' : Stmt → Value → Prop} {Q Q' : Heap → α → Prop}

theorem Ends.after {result : EStateM.Result Signal Watched α} (leads : w.Leads w')
    (ends : Ends w' R Q result) : Ends w R Q result := by
  cases ends with
  | ok more described => exact .ok (leads.trans more) described
  | returned more raises proper => exact .returned (leads.trans more) raises proper
  | stopped more settled other => exact .stopped (leads.machine.trans more) settled other

namespace Settles

theorem weaken {watched : WatchedRun α} (settles : Settles w watched R Q)
    (raises : ∀ statement v, R statement v → R' statement v)
    (describes : ∀ h a, Q h a → Q' h a) : Settles w watched R' Q' := by
  intro orderly settled
  have here := settles orderly settled
  generalize watched w = result at here
  cases here with
  | ok leads described => exact .ok leads (describes _ _ described)
  | returned leads raised proper => exact .returned leads (raises _ _ raised) proper
  | stopped leads settled other => exact .stopped leads settled other

theorem pure {a : α} (described : Q w.machine.heap a) : Settles w (pure a) R Q :=
  fun orderly settled => .ok ⟨.refl orderly, settled, rfl⟩ described

theorem throw {signal : Signal} (other : ∀ v, signal ≠ .returned v) :
    Settles w (throw signal) R Q :=
  fun orderly settled => .stopped (.refl orderly) settled other

theorem fail (token : Occurrence) (fault : RuntimeFault) : Settles w (Run.fail token fault) R Q :=
  throw fun _ => by simp

theorem lift {run : Run α} (keeps : Run.Keeps w.machine run Q) : Settles w (lift run) R Q := by
  intro orderly settled
  have here := keeps orderly
  unfold NotedRun.lift
  generalize run w.machine = result at here
  cases here with
  | ok leads described => exact .ok ⟨leads, settled, rfl⟩ described
  | error leads other => exact .stopped leads settled other

theorem bind {watched : WatchedRun α} {f : α → WatchedRun β} {P : Heap → β → Prop}
    (first : Settles w watched R Q)
    (second : ∀ a w', w.Leads w' → Q w'.machine.heap a → Settles w' (f a) R P) :
    Settles w (watched >>= f) R P := by
  intro orderly settled
  have here := first orderly settled
  simp only [Bind.bind, EStateM.bind]
  generalize watched w = result at here
  cases here with
  | ok leads described =>
    exact (second _ _ leads described leads.machine.heap.orderly leads.settled).after leads
  | returned leads raised proper => exact .returned leads raised proper
  | stopped leads settled other => exact .stopped leads settled other

theorem map {watched : WatchedRun α} {P : Heap → β → Prop} {f : α → β}
    (first : Settles w watched R Q) (described : ∀ h a, Q h a → P h (f a)) :
    Settles w (f <$> watched) R P :=
  first.bind fun _ _ _ here => pure (described _ _ here)

/-- What is read off the heap leaves it as it is. -/
theorem ask {read : Heap → β} {f : β → WatchedRun α}
    (rest : Settles w (f (read w.machine.heap)) R Q) :
    Settles w (NotedRun.lift (Run.ask read) >>= f) R Q :=
  rest

/-- An occurrence that is looked up is no episode. -/
theorem mention (form : MentionForm) (o : Occurrence) {watched : WatchedRun α}
    (rest : Settles w watched R Q) :
    Settles w (do note Episode.scribe (.mention form o); watched) R Q :=
  rest

/-! ### Control -/

theorem inEnvironment (e : EnvironmentId) {watched : WatchedRun α}
    (body : ∀ w', Settles w' watched R Q) : Settles w (inEnvironment e watched) R Q := by
  intro orderly settled
  have here := body { w with machine := { w.machine with current := e } } orderly settled
  unfold NotedRun.inEnvironment
  dsimp only at here ⊢
  generalize watched _ = result at here
  cases here with
  | ok leads described =>
    obtain ⟨⟨heap, globals⟩, settled, calls⟩ := leads
    exact .ok ⟨⟨heap, globals⟩, settled, calls⟩ described
  | returned leads raised proper =>
    obtain ⟨⟨heap, globals⟩, settled, calls⟩ := leads
    exact .returned ⟨⟨heap, globals⟩, settled, calls⟩ raised proper
  | stopped leads settled other => exact .stopped ⟨leads.heap, leads.globals⟩ settled other

theorem forM {f : β → WatchedRun Unit} {items : List β}
    (each : ∀ item ∈ items, ∀ w', Settles w' (f item) R fun _ _ => True) :
    Settles w (items.forM f) R fun _ _ => True := by
  induction items generalizing w with
  | nil => exact pure trivial
  | cons item rest inductionHypothesis =>
    obtain ⟨first, others⟩ := List.forall_mem_cons.1 each
    apply (first w).bind
    intro _ w' _ _
    exact inductionHypothesis others

theorem mapM {f : β → WatchedRun Value} {items : List β}
    (each : ∀ item ∈ items, ∀ w', Settles w' (f item) R fun h v => v.Proper h) :
    Settles w (items.mapM f) R fun h vs => ∀ v ∈ vs, v.Proper h := by
  induction items generalizing w with
  | nil => exact pure (by simp)
  | cons item rest inductionHypothesis =>
    obtain ⟨first, others⟩ := List.forall_mem_cons.1 each
    rw [List.mapM_cons]
    apply (first w).bind
    intro v w₁ _ proper
    apply (inductionHypothesis others).bind
    intro vs w₂ leads propers
    exact pure (List.forall_mem_cons.2 ⟨leads.machine.heap.extended.proper proper, propers⟩)

theorem repeatWhile {condition : WatchedRun Bool} {body : WatchedRun Unit}
    (conditions : ∀ w', Settles w' condition R fun _ _ => True)
    (bodies : ∀ w', Settles w' body R fun _ _ => True) (limit : Nat) :
    Settles w (Run.repeatWhile condition body limit) R fun _ _ => True := by
  induction limit generalizing w with
  | zero => exact throw fun _ => by simp
  | succ limit inductionHypothesis =>
    apply (conditions w).bind
    intro holds w₁ _ _
    cases holds with
    | false => exact pure trivial
    | true =>
      apply (bodies w₁).bind
      intro _ w₂ _ _
      exact inductionHypothesis

/-- The innermost call that is open catches the `return` of its body. -/
theorem catchReturn {call : Invocation} (innermost : (openCalls w.notes).head? = some call)
    {watched : WatchedRun α}
    (body : Settles w watched
      (fun statement v => call.closure.declaration.Holds statement ∧
        (call.closure.isInitializer = true → v = .nil)) Q) :
    Settles w (catchReturn Episode.scribe call watched) R fun h v => v.Proper h := by
  intro orderly settled
  have here := body orderly settled
  unfold NotedRun.catchReturn
  generalize watched w = result at here
  cases here with
  | ok leads described => exact .ok leads trivial
  -- What is caught was raised in the body of the innermost call, by the statement noted last.
  | @returned statement v machine earlier leads raised proper =>
    have caught : Settled (.caught call v :: .raised statement v :: earlier) :=
      .caught leads.settled (leads.calls ▸ innermost) raised.1 raised.2
    have leads' : w.Leads ⟨machine, .caught call v :: .raised statement v :: earlier⟩ :=
      ⟨leads.machine, caught, leads.calls⟩
    exact .ok leads' proper
  | @stopped signal w' leads settled other =>
    cases signal with
    | returned v => exact absurd rfl (other v)
    | failed | internal | unresolvedSuper | exhausted => exact .stopped leads settled other

end Settles

/-! ## Calls -/

/-- What is known of a statement that raises a `return` in `s`, which is run in a function of a kind. -/
structure Raises (kind : FunctionContext) (s statement : Stmt) (v : Value) : Prop where
  inside : kind ≠ .outside
  lies : statement.LiesIn s
  silent : kind = .initializer → v = .nil

section Calls

variable {watched : Stmt → WatchedRun Unit}
  (executes : ∀ kind s, s.Permitted kind → ∀ w,
    Settles w (watched s) (Raises kind s) fun _ _ => True)
include executes

theorem runBody_settles {call : Invocation} (innermost : (openCalls w.notes).head? = some call)
    (permitted : call.closure.Permitted)
    (receiver : ∀ v, call.receiver = some v → w.machine.heap.receiver? call.closure = some v)
    (bound : call.Bound) :
    Settles w (runBody Episode.scribe watched call) R
      fun h v => v.Proper h ∧ (call.closure.isInitializer = true → call.receiver = some v) := by
  obtain ⟨kind, inside, sameKind, function⟩ := permitted
  have statements : Settles w
      (inEnvironment call.frame (call.closure.declaration.body.forM watched))
      (fun statement v => call.closure.declaration.Holds statement ∧
        (call.closure.isInitializer = true → v = .nil)) fun _ _ => True := by
    refine Settles.inEnvironment _ fun w' => Settles.forM fun s member w' => ?_
    apply (executes kind s (function.of_body member) w').weaken _ fun _ _ here => here
    intro statement v raises
    exact ⟨⟨s, member, raises.lies⟩, fun initializer => raises.silent (sameKind initializer)⟩
  apply (Settles.catchReturn innermost statements).bind
  intro result w' leads proper
  apply Settles.lift
  cases initializer : call.closure.isInitializer with
  | false => exact .pure ⟨proper, by simp⟩
  | true =>
    -- the closure is still bound to what it was bound to when the call began
    obtain ⟨object, boundTo⟩ := bound initializer
    apply Run.Keeps.ask.bind
    rintro _ m' more rfl
    have still : m'.heap.receiver? call.closure = some (.instance object) :=
      (leads.machine.trans more).heap.extended.receiver? (receiver _ boundTo)
    rw [Heap.lookUpAt_this still]
    exact .pure ⟨trivial, fun _ => boundTo⟩

theorem invoke_settles {call : Invocation} (arguments : List Value)
    (permitted : call.closure.Permitted)
    (receiver : ∀ v, call.receiver = some v → w.machine.heap.receiver? call.closure = some v)
    (bound : call.Bound) :
    Settles w (invoke Episode.scribe watched call arguments) R fun h v => v.Proper h := by
  intro orderly settled
  have here := runBody_settles executes (R := fun _ _ => False)
    (w := ⟨w.machine, .entered call :: w.notes⟩) rfl permitted receiver bound orderly
    (.entered settled bound)
  change Ends w R _ (EStateM.bind (runBody Episode.scribe watched call)
    (fun value => do note Episode.scribe (.completed call value); return value)
    ⟨w.machine, .entered call :: w.notes⟩)
  rw [EStateM.bind]
  generalize runBody Episode.scribe watched call _ = result at here
  cases here with
  | @ok value w' leads described =>
    have innermost : (openCalls w'.notes).head? = some call := congrArg _ leads.calls
    have completed : Settled (.completed call value :: w'.notes) :=
      .completed leads.settled innermost described.2
    -- The call that was opened is the one that is closed.
    have closed : openCalls (.completed call value :: w'.notes) = openCalls w.notes :=
      congrArg List.tail leads.calls
    have leads' : w.Leads ⟨w'.machine, .completed call value :: w'.notes⟩ :=
      ⟨leads.machine, completed, closed⟩
    exact .ok leads' described.1
  | returned leads raised => exact raised.elim
  | stopped leads settled other => exact .stopped leads settled other

/-- A function that a program can get hold of may be called with values of the program. -/
theorem callFunction_settles {f : FunctionId} {arguments : List Value}
    (proper : (Value.function f).Proper w.machine.heap)
    (propers : ∀ v ∈ arguments, v.Proper w.machine.heap) :
    Settles w (callFunction Episode.scribe watched f arguments) R fun h v => v.Proper h := by
  apply (Settles.lift Run.Keeps.ask).bind
  rintro _ w₁ first rfl
  apply Settles.ask
  have proper := first.machine.heap.extended.proper proper
  have parameters : (Run.parameterTable
      (w₁.machine.heap.functionAt f).declaration.parameters arguments).Proper w₁.machine.heap :=
    .parameterTable _ fun v member => first.machine.heap.extended.proper (propers v member)
  apply (Settles.lift (Run.Keeps.newEnvironment parameters)).bind
  intro frame w₂ second _
  apply invoke_settles executes arguments (first.machine.heap.orderly.functions f)
  · intro v receiver
    exact second.machine.heap.extended.receiver? receiver
  · exact proper.2

theorem callClass_settles (c : ClassId) {arguments : List Value}
    (propers : ∀ v ∈ arguments, v.Proper w.machine.heap) :
    Settles w (callClass Episode.scribe watched c arguments) R fun h v => v.Proper h := by
  apply (Settles.lift (Run.Keeps.change (Q := fun _ _ => True) fun orderly =>
    ⟨orderly.newInstance c, trivial⟩)).bind
  intro object w₁ first _
  apply (Settles.lift Run.Keeps.ask).bind
  intro found w₂ second _
  cases found with
  | none => exact .pure trivial
  | some initializer =>
    dsimp only
    rw [Episode.scribe_ofCalls.bindTo]
    apply (Settles.lift (Run.Keeps.bindMethod initializer object)).bind
    intro bound w₃ third proper
    have grows := (first.trans (second.trans third)).machine.heap.extended
    apply (callFunction_settles executes proper fun v member =>
      grows.proper (propers v member)).bind
    intro _ w₄ _ _
    exact .pure trivial

theorem callChecked_settles (paren : Occurrence) {callee : Value} {arguments : List Value}
    (proper : callee.Proper w.machine.heap)
    (propers : ∀ v ∈ arguments, v.Proper w.machine.heap) :
    Settles w (callChecked Episode.scribe watched paren callee arguments) R
      fun h v => v.Proper h := by
  apply (Settles.lift Run.Keeps.ask).bind
  intro arity w' leads _
  have proper := leads.machine.heap.extended.proper proper
  have propers : ∀ v ∈ arguments, v.Proper w'.machine.heap := fun v member =>
    leads.machine.heap.extended.proper (propers v member)
  cases arity with
  | none => exact .fail paren _
  | some arity =>
    dsimp only
    split
    · cases callee with
      | native n => exact .lift (Run.callNative_keeps n arguments)
      | function f => exact callFunction_settles executes proper propers
      | «class» c => exact callClass_settles executes c propers
      -- Nothing else has an arity, so this case is never met.
      | _ => exact .pure trivial
    · exact .fail paren _

end Calls

end WatchedRun

end Lox
