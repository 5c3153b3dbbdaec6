import Lox.Proofs.Account.Silence

/-!
# Episodes of a run

A watched run notes, of its calls of functions, which call begins, which statement returns and which
call catches that, and what a call yields.
-/

namespace Lox

/-- A statement lies in another one, and in no function that is declared there. -/
inductive Stmt.LiesIn (inner : Stmt) : Stmt → Prop where
  | here : LiesIn inner inner
  | block {body : List Stmt} {s : Stmt} : s ∈ body → LiesIn inner s → LiesIn inner (.block body)
  | thenBranch {condition : Expr} {s : Stmt} {elseBranch : Option Stmt} :
      LiesIn inner s → LiesIn inner (.ite condition s elseBranch)
  | elseBranch {condition : Expr} {thenBranch s : Stmt} :
      LiesIn inner s → LiesIn inner (.ite condition thenBranch (some s))
  | loop {condition : Expr} {body : Stmt} : LiesIn inner body → LiesIn inner (.while condition body)

/-- The function is the innermost one around the statement. -/
def Function.Holds (f : Function) (inner : Stmt) : Prop := ∃ s ∈ f.body, inner.LiesIn s

inductive Episode where
  | entered (call : Invocation)
  /-- A `return` statement ends, with this value. -/
  | raised (statement : Stmt) (value : Value)
  /-- The call of a function ends a `return`. -/
  | caught (call : Invocation) (value : Value)
  /-- The call yields the value. -/
  | completed (call : Invocation) (value : Value)

/-- The calls that have begun and not completed, the innermost first. -/
def openCalls : List Episode → List Invocation
  | [] => []
  | .entered call :: earlier => call :: openCalls earlier
  | .completed _ _ :: earlier => (openCalls earlier).tail
  | .raised _ _ :: earlier | .caught _ _ :: earlier => openCalls earlier

/-- Notes calls, and what becomes of a `return`. -/
def Episode.scribe : Scribe Episode
  | _, .called call _ => some (.entered call)
  | _, .raised statement value => some (.raised statement value)
  | _, .caught call value => some (.caught call value)
  | _, .completed call value => some (.completed call value)
  | _, .mention _ _ | _, .declared _ _ _ _ | _, .bound _ _ _ => none

theorem Episode.scribe_ofCalls : scribe.OfCalls :=
  ⟨fun _ _ _ => rfl, fun _ _ _ _ _ => rfl, fun _ _ _ _ => rfl⟩

abbrev Watched := Noted Episode

abbrev WatchedRun := NotedRun Episode

/-! ## Settled accounts -/

/-- An initializer is bound to an instance. -/
def Invocation.Bound (call : Invocation) : Prop :=
  call.closure.isInitializer = true → ∃ object, call.receiver = some (.instance object)

/--
An account in which every `return` is caught at once, by the innermost call that is open, whose function
is the innermost one around the statement. Calls of initializers are bound, catch no value and yield what
they are bound to.
-/
inductive Settled : List Episode → Prop where
  | nil : Settled []
  | entered {call : Invocation} {earlier : List Episode} :
      Settled earlier → call.Bound → Settled (.entered call :: earlier)
  | caught {call : Invocation} {statement : Stmt} {value : Value} {earlier : List Episode} :
      Settled earlier → (openCalls earlier).head? = some call →
      call.closure.declaration.Holds statement →
      (call.closure.isInitializer = true → value = .nil) →
      Settled (.caught call value :: .raised statement value :: earlier)
  | completed {call : Invocation} {value : Value} {earlier : List Episode} :
      Settled earlier → (openCalls earlier).head? = some call →
      (call.closure.isInitializer = true → call.receiver = some value) →
      Settled (.completed call value :: earlier)

namespace Settled

variable {account : List Episode} (settled : Settled account)
include settled

theorem raised_caught {later earlier : List Episode} {statement : Stmt} {value : Value}
    (split : account = later ++ .raised statement value :: earlier) :
    ∃ newer call, later = newer ++ [.caught call value] ∧
      (openCalls earlier).head? = some call ∧ call.closure.declaration.Holds statement := by
  induction settled generalizing later with
  | nil => simp at split
  | entered _ _ inductionHypothesis | completed _ _ _ inductionHypothesis =>
    cases later with
    | nil => simp at split
    | cons first later =>
      obtain ⟨newer, call, rfl, found⟩ := inductionHypothesis (List.cons.inj split).2
      exact ⟨first :: newer, call, rfl, found⟩
  -- A catch stands right before the `return` that it catches.
  | caught _ innermost around _ inductionHypothesis =>
    cases later with
    | nil => simp at split
    | cons first later =>
      obtain ⟨rfl, below⟩ := List.cons.inj split
      cases later with
      | nil =>
        obtain ⟨same, rfl⟩ := List.cons.inj below
        cases same
        exact ⟨[], _, rfl, innermost, around⟩
      | cons second later =>
        obtain ⟨newer, call, rfl, found⟩ := inductionHypothesis (List.cons.inj below).2
        exact ⟨_ :: second :: newer, call, rfl, found⟩

theorem entered_of_open {call : Invocation} (isOpen : call ∈ openCalls account) :
    .entered call ∈ account := by
  induction settled with
  | nil => cases isOpen
  | entered _ _ inductionHypothesis =>
    rcases List.mem_cons.1 isOpen with rfl | older
    · exact List.mem_cons_self ..
    · exact List.mem_cons_of_mem _ (inductionHypothesis older)
  | caught _ _ _ _ inductionHypothesis =>
    exact List.mem_cons_of_mem _ (List.mem_cons_of_mem _ (inductionHypothesis isOpen))
  | completed _ _ _ inductionHypothesis =>
    exact List.mem_cons_of_mem _ (inductionHypothesis (List.mem_of_mem_tail isOpen))

theorem entered_of_completed {call : Invocation} {value : Value}
    (member : .completed call value ∈ account) : .entered call ∈ account := by
  induction settled with
  | nil => cases member
  | entered _ _ inductionHypothesis =>
    exact List.mem_cons_of_mem _ (inductionHypothesis (by simpa using member))
  | caught _ _ _ _ inductionHypothesis =>
    have older := inductionHypothesis (by simpa using member)
    exact List.mem_cons_of_mem _ (List.mem_cons_of_mem _ older)
  | completed earlier innermost _ inductionHypothesis =>
    apply List.mem_cons_of_mem
    rcases List.mem_cons.1 member with same | member
    · cases same
      exact entered_of_open earlier (List.mem_of_mem_head? innermost)
    · exact inductionHypothesis member

theorem entered_bound {call : Invocation} (member : .entered call ∈ account) : call.Bound := by
  induction settled with
  | nil => cases member
  | entered _ bound inductionHypothesis =>
    rcases List.mem_cons.1 member with same | member
    · cases same
      exact bound
    · exact inductionHypothesis member
  | caught _ _ _ _ inductionHypothesis | completed _ _ _ inductionHypothesis =>
    exact inductionHypothesis (by simpa using member)

theorem completed_receiver {call : Invocation} {value : Value}
    (member : .completed call value ∈ account) (initializer : call.closure.isInitializer = true) :
    call.receiver = some value := by
  induction settled with
  | nil => cases member
  | entered _ _ inductionHypothesis | caught _ _ _ _ inductionHypothesis =>
    exact inductionHypothesis (by simpa using member)
  | completed _ _ yields inductionHypothesis =>
    rcases List.mem_cons.1 member with same | member
    · cases same
      exact yields initializer
    · exact inductionHypothesis member

theorem caught_nil {call : Invocation} {value : Value} (member : .caught call value ∈ account)
    (initializer : call.closure.isInitializer = true) : value = .nil := by
  induction settled with
  | nil => cases member
  | entered _ _ inductionHypothesis => exact inductionHypothesis (by simpa using member)
  | caught _ _ _ silent inductionHypothesis =>
    rcases List.mem_cons.1 member with same | member
    · cases same
      exact silent initializer
    · exact inductionHypothesis (by simpa using member)
  | completed _ _ _ inductionHypothesis => exact inductionHypothesis (by simpa using member)

end Settled

end Lox
