import Lox.Proofs.Calls.Accounts
import Lox.Proofs.Calls.Parameters
import Lox.Proofs.Session.Returns

/-!
# Calls in sessions

Every call of a function binds every parameter, whichever program of the session declared the
function and however the call reached it. A call with another number of arguments fails before it has
an effect.
-/

namespace Lox

/-- Runs a program that is accepted, with an account of the functions that it calls. -/
def Session.attend (limits : Limits) (s : Session) (program : Program) : Outcome × Attended :=
  NotedRun.interpret Activation.scribe limits.loops limits.depth program ⟨s.start program, []⟩

/-- Each parameter has a name of its own and its own argument, and the environment holds no more. -/
structure Activation.Binds (a : Activation) : Prop where
  arity : a.arguments.length = a.closure.declaration.parameters.length
  distinct : (a.closure.declaration.parameters.map Token.lexeme).Nodup
  names : a.environment.names.Binds a.closure.declaration.parameters a.arguments
  enclosing : a.environment.enclosing = some a.closure.environment

/-- The names of the parameters differ, for the resolver permits the function. -/
theorem Activation.Exact.binds {a : Activation} (exact : a.Exact)
    (permitted : a.closure.Permitted) : a.Binds := by
  obtain ⟨kind, -, -, permitted⟩ := permitted
  have distinct := permitted.distinct
  refine ⟨exact.arity, distinct, ?_, ?_⟩
  · rw [exact.environment]
    exact Run.parameterTable_binds distinct exact.arity
  · rw [exact.environment]

/-- A function that stays as it is was permitted before. -/
theorem Heap.KeepsFunctions.permitted {h h' : Heap} (kept : h.KeepsFunctions h')
    (orderly : h'.Orderly) (f : FunctionId) : (h.functionAt f).Permitted := by
  by_cases inside : f.index < h.functions.size
  · exact kept.same f inside ▸ orderly.functions f
  · have absent : h.functionAt f = default := by simp [functionAt, inside]
    exact absent ▸ Closure.default_permitted

theorem Session.attend_binds {clock : Nat → Float} {earlier : List Step} {limits : Limits}
    {source : String} {program : Program}
    (accepted : (after clock earlier).accepted? limits source = some program) :
    let s := after clock earlier
    let ended := s.attend limits program
    interpret limits.loops limits.depth program (s.start program) = (ended.1, ended.2.machine) ∧
      ∀ a ∈ ended.2.notes, a.Binds := by
  intro s ended
  have same := interpret_noted Activation.scribe limits.loops limits.depth program
    ⟨s.start program, []⟩
  obtain ⟨-, new, split, exact⟩ :=
    interpret_gains limits.loops limits.depth program ⟨s.start program, []⟩
  refine ⟨same, fun a member => ?_⟩
  rw [List.append_nil] at split
  obtain ⟨exact, kept⟩ := exact a (split ▸ member)
  -- The account is of the very run that the session makes, so both leave the same heap.
  have left : (after clock (earlier ++ [.run limits source])).machine.heap =
      ended.2.machine.heap := by
    rw [after_concat, step, (run_accepted accepted).1, same]
    rfl
  have orderly := (after_orderly clock (earlier ++ [.run limits source])).heap
  rw [left] at orderly
  exact exact.binds (kept.permitted orderly a.function)

/--
In the run of an accepted program after any history, each function is called with just as many
arguments as its declaration has parameters, whose names differ; and before its body runs, the table
of its new environment holds each parameter with its own argument, and nothing else. To call a value
that takes another number of arguments is to fail at the closing parenthesis, once the callee and the
arguments have been evaluated, and to leave the machine as they left it.
-/
theorem calls_bind_parameters :
    (∀ clock earlier limits source program,
      (Session.after clock earlier).accepted? limits source = some program →
      let s := Session.after clock earlier
      let ended := s.attend limits program
      interpret limits.loops limits.depth program (s.start program) = (ended.1, ended.2.machine) ∧
        ∀ a ∈ ended.2.notes, a.Binds) ∧
    ∀ (loops depth : Nat) (callee : Expr) (paren : Occurrence) (arguments : List Expr)
      (m m₁ m₂ : Machine) (f : Value) (vs : List Value) (arity : Nat),
      evaluate loops depth callee m = .ok f m₁ →
      arguments.mapM (evaluate loops depth) m₁ = .ok vs m₂ →
      m₂.heap.arity? f = some arity → vs.length ≠ arity →
      evaluate loops (depth + 1) (.call callee paren arguments) m =
        .error (.failed ⟨.wrongArity arity vs.length, paren⟩) m₂ := by
  refine ⟨fun _ _ _ _ _ accepted => Session.attend_binds accepted, ?_⟩
  intro loops depth callee paren arguments m m₁ m₂ f vs arity evaluated passed takes other
  rw [evaluate, Run.bind_of_ok evaluated, Run.bind_of_ok passed]
  exact Run.callChecked_wrongArity _ paren takes other

/-- A function, an initializer that is inherited, and one that calls that of the superclass. -/
def callables : String :=
  "fun pair(a, b) \x7b return a; \x7d " ++
  "class A \x7b init(x, y) \x7b this.x = pair(x, y); \x7d \x7d " ++
  "class B < A \x7b init(x, y) \x7b super.init(y, x); \x7d \x7d class C < B \x7b\x7d"

/-- Calls of a class, of its initializer, bound and through an instance, and of a function. -/
def allCalls : String :=
  "var c = C(1, 2); var again = c.init; again(3, 4); c.init(5, 6); pair(7, 8);"

def afterCallables : Session := .after (fun _ => 0) [.run ⟨60, 60, 60, 60⟩ callables]

def classC : Expr := .name ⟨1000, ⟨.identifier, "C", .nil, 1⟩⟩

theorem calls_bind_parameters_allCalls :
    (∃ program, afterCallables.accepted? ⟨60, 60, 60, 60⟩ allCalls = some program ∧
      (afterCallables.attend ⟨60, 60, 60, 60⟩ program).2.notes.length = 10 ∧
      ∀ a ∈ (afterCallables.attend ⟨60, 60, 60, 60⟩ program).2.notes, a.Binds) ∧
    ∃ f m, evaluate 60 60 classC afterCallables.machine = .ok f m ∧
      evaluate 60 61 (.call classC (endToken 1) []) afterCallables.machine =
        .error (.failed ⟨.wrongArity 2 0, endToken 1⟩) m := by
  obtain ⟨binds, refused⟩ := calls_bind_parameters
  constructor
  · have computed : (afterCallables.accepted? ⟨60, 60, 60, 60⟩ allCalls).any (fun program =>
        (afterCallables.attend ⟨60, 60, 60, 60⟩ program).2.notes.length == 10) = true := by
      decide +kernel
    obtain ⟨program, accepted, count⟩ := (Option.any_eq_true ..).1 computed
    have accounts := binds (fun _ => 0) [.run ⟨60, 60, 60, 60⟩ callables] ⟨60, 60, 60, 60⟩ allCalls
      program accepted
    exact ⟨program, accepted, by simpa using count, accounts.2⟩
  · have computed : (match evaluate 60 60 classC afterCallables.machine with
        | .ok f m => decide (m.heap.arity? f = some 2)
        | .error _ _ => false) = true := by
      decide +kernel
    split at computed
    · next f m evaluated =>
      have arity : m.heap.arity? f = some 2 := of_decide_eq_true computed
      exact ⟨f, m, evaluated, refused 60 60 classC (endToken 1) [] _ m m f [] 2 evaluated rfl arity
        (by decide)⟩
    · cases computed

end Lox
