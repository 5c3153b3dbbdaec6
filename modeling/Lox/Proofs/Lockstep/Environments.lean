import Lox.Proofs.Lockstep.Classes

/-!
# Environments in step

A block and the body of a function run in an environment of their own. It is new, so that no environment
that was there before gets a name.
-/

namespace Lox

open Lexical (CellId Names Store LexicalRun)

variable {V : Visit → Prop} {D : Distances} {α β γ δ : Type}

/-! ## Running in an environment -/

theorem Joint.Before.fresh {e : EnvironmentId} {j j' j'' : Joint V D} (first : j.Before none j')
    (second : j'.Before (some e) j'') (unknown : j.world.frames e = none) : j.Before none j'' :=
  ⟨first.world.fresh second.world unknown, second.current.trans first.current,
    fun x present => second.globals x (first.globals x present)⟩

section Noted

variable {ν : Type} {body : NotedRun ν α} {e : EnvironmentId} {t t' : Noted ν}

theorem NotedRun.inEnvironment_of_ok {a : α}
    (ran : body { t with machine := { t.machine with current := e } } = .ok a t') :
    inEnvironment e body t =
      .ok a { t' with machine := { t'.machine with current := t.machine.current } } := by
  simp only [inEnvironment, ran]

theorem NotedRun.inEnvironment_of_error {signal : Signal}
    (ran : body { t with machine := { t.machine with current := e } } = .error signal t') :
    inEnvironment e body t =
      .error signal { t' with machine := { t'.machine with current := t.machine.current } } := by
  simp only [inEnvironment, ran]

end Noted

namespace Joint.Lockstep

variable {j : Joint V D} {o : Option EnvironmentId} {run : TracedRun α} {reference : LexicalRun β}
  {Q : Joint V D → α → β → Prop}

/-- What is given names after the first steps was not there before them. -/
theorem enclosed {f : α → TracedRun γ} {g : β → LexicalRun δ} {R : Joint V D → γ → δ → Prop}
    {e : EnvironmentId} (unknown : j.world.frames e = none) (first : j.Lockstep none run reference Q)
    (second : ∀ a b j', j.Before none j' → Q j' a b → j'.Lockstep (some e) (f a) (g b) R) :
    j.Lockstep none (run >>= f) (reference >>= g) R :=
  bindWith (fun before before' => before.fresh before' unknown) first second

/-- Steps in another environment are steps, and lead back. -/
theorem inEnvironment {e : EnvironmentId} (steps : (j.withCurrent e).Lockstep o run reference Q) :
    j.Lockstep o (NotedRun.inEnvironment e run) reference fun j' a b =>
      Q (j'.withCurrent e) a b := by
  rcases steps with ⟨a, b, k, here, there, before, holds⟩ | ⟨signal, k, here, before, ended⟩
  · have left : NotedRun.inEnvironment e run j.traced =
        .ok a (k.withCurrent j.current).traced := NotedRun.inEnvironment_of_ok here
    rw [Lockstep, left]
    have back : (k.withCurrent j.current).withCurrent e = k := by
      rw [show e = k.current from before.current.symm]
      rfl
    exact .inl ⟨a, b, k.withCurrent j.current, rfl, there, ⟨before.world, rfl, before.globals⟩,
      back.symm ▸ holds⟩
  · have left : NotedRun.inEnvironment e run j.traced =
        .error signal (k.withCurrent j.current).traced := NotedRun.inEnvironment_of_error here
    rw [Lockstep, left]
    exact .inr ⟨signal, k.withCurrent j.current, rfl, ⟨before.world, rfl, before.globals⟩, ended⟩

end Joint.Lockstep

/-! ## New environments -/

/-- An environment of a block or a function, without names. -/
def Frame.empty (kind : FrameKind) (outer : EnvironmentId) : Frame := ⟨kind, outer, fun _ => none⟩

theorem World.Sound.addEmpty {W : World} {h : Heap} {s : Store} (sound : W.Sound V)
    (real : W.Real h s) {kind : FrameKind} {outer : EnvironmentId}
    (new : kind.Sound W (h.newEnvironment ⟨.empty, some outer⟩).1 outer) :
    (W.addFrame (h.newEnvironment ⟨.empty, some outer⟩).1 (.empty kind outer)).Sound V := by
  let env : Environment := ⟨.empty, some outer⟩
  have later := World.Extends.addFrame (real.unknown_environment env) (.empty kind outer)
  refine sound.extend later ?_ (sound.separate_addFrame (by rintro _ _ ⟨⟩)
    (by rintro _ _ _ ⟨⟩)) (fun e frame known => ?_) (fun _ _ known => .inl known)
    (fun _ _ known => .inl known) (fun _ _ known => .inl known) sound.chronicled
  · exact (Function.update_of_ne (real.globals_ne_new env) ..).trans sound.globals
  · rcases update_eq_some known with ⟨rfl, rfl⟩ | ⟨-, known⟩
    · exact .inr ⟨FrameKind.Sound.mono later new, by rintro _ _ ⟨⟩⟩
    · exact .inl known

theorem World.Real.addEmpty {W : World} {h : Heap} {s : Store} (real : W.Real h s)
    {kind : FrameKind} {outer : EnvironmentId}
    (plain : ∀ text, kind.origin ≠ .this text ∧ kind.origin ≠ .super text) :
    (W.addFrame (h.newEnvironment ⟨.empty, some outer⟩).1 (.empty kind outer)).Real
      (h.newEnvironment ⟨.empty, some outer⟩).2 s := by
  refine real.addFrame rfl (fun _ => rfl) (by rintro _ _ ⟨⟩)
    (fun text object method made declarer here => ?_) fun text parent here => ?_
  · exact absurd (congrArg FrameKind.origin here) (plain text).1
  · exact absurd (congrArg FrameKind.origin here) (plain text).2

/-- What runs in a new environment has no names of its own yet. -/
theorem World.Stands.enter {W : World} {e outer : EnvironmentId} {kind : FrameKind} {p : Place}
    {names : Names} (known : W.frames e = some (.empty kind outer))
    (scope : W.Scoped outer p.levels names.find?) (settled : p.Settled) :
    W.Stands e (p.enter .empty kind.origin) names.enter := by
  refine ⟨⟨.empty kind outer, known, rfl, by rintro _ ⟨⟩, names.find?, scope,
    fun x => ?_⟩, by simp [Place.enter], fun frame known' level _ x c found => ?_, settled⟩
  · rw [Names.find?_enter]
    rfl
  · obtain rfl := Option.some.inj (known.symm.trans known')
    cases found

/-! ## Blocks -/

theorem Joint.newBlock_lockstep {j : Joint V D} {p : Place} {names : Names}
    (stands : j.Stands p names) (settled : p.Settled) (body : List Stmt) :
    j.Lockstep none
      (NotedRun.lift (Run.change (·.newEnvironment ⟨.empty, some j.current⟩))) (pure names.enter)
      fun j' e names' => e = ⟨j.heap.environments.size⟩ ∧
        (j'.withCurrent e).Stands (p.enter .empty (.block body)) names' := by
  have related := j.related
  let e : EnvironmentId := ⟨j.heap.environments.size⟩
  let frame : Frame := .empty (.block body) j.current
  have unknown : j.world.frames e = none := related.real.unknown_environment ⟨.empty, none⟩
  have later := World.Extends.addFrame unknown frame
  have sound : (j.world.addFrame e frame).Sound V :=
    related.sound.addEmpty related.real trivial
  have real : (j.world.addFrame e frame).Real
      (j.heap.newEnvironment ⟨.empty, some j.current⟩).2 j.store :=
    related.real.addEmpty (by simp [FrameKind.origin])
  refine .change (a := e) (b := names.enter) (by rw [World.addFrame, ← related.moments]; rfl) rfl
    later sound real { related.alike with } ⟨rfl, rfl, rfl, rfl, fun _ present => present⟩
    fun j' world _ _ => ⟨rfl, ?_⟩
  have known : (j.world.addFrame e frame).frames e = some frame := Function.update_self ..
  -- The environment is empty, so inside it the names mean what they meant outside.
  have entered : (j.world.addFrame e frame).Stands e (p.enter .empty (.block body)) names.enter :=
    World.Stands.enter known (stands.scope.mono later) settled
  rw [← world] at entered
  exact entered

/-- Statements in a block change what is in scope in the block only. -/
theorem Joint.block_lockstep {j : Joint V D} {p : Place} {names : Names} (stands : j.Stands p names)
    (settled : p.Settled) {body : List Stmt} {execute : Stmt → TracedRun Unit}
    {execute' : Names → Stmt → LexicalRun Names}
    (steps : ∀ (k : Joint V D) (names' : Names), k.Stands (p.enter .empty (.block body)) names' →
      k.Lockstep (some k.current) (body.forM execute) (body.foldlM execute' names')
        fun _ _ _ => True) :
    j.Lockstep none (NotedRun.block execute body)
      (body.foldlM execute' names.enter) fun _ _ _ => True := by
  have unknown := j.related.real.unknown_environment ⟨.empty, none⟩
  have whole := (j.newBlock_lockstep stands settled body).enclosed unknown
    (f := fun e => NotedRun.inEnvironment e (body.forM execute))
    (g := fun names' => body.foldlM execute' names') (R := fun _ _ _ => True)
    (by rintro _ names' j' _ ⟨rfl, entered⟩; exact .inEnvironment (steps _ names' entered))
  exact whole.of_eq rfl rfl

/-! ## Output and input -/

theorem Joint.print_lockstep {j : Joint V D} (value : Value) :
    j.Lockstep none (NotedRun.lift (Run.print value)) (LexicalRun.print value)
      fun _ _ _ => True := by
  have related := j.related
  let m := j.traced.machine
  refine .inl ⟨(), (), ⟨j.world, ⟨{ m with printed := m.printed.push (m.heap.display value) },
    j.traced.notes⟩, { j.store with printed := j.store.printed.push (j.store.objects.display value) },
    ?_⟩, rfl, rfl, ⟨.refl _, rfl, fun _ present => present⟩, trivial⟩
  refine { related with real := ?_, alike := { related.alike with }, printed := ?_ }
  · exact { related.real with
      frames := fun e frame known => (related.real.frames e frame known).congr rfl rfl }
  · rw [related.printed, related.alike.display]

theorem Joint.readClock_lockstep {j : Joint V D} :
    j.Lockstep none (NotedRun.lift Run.readClock) LexicalRun.readClock
      fun j' a b => j'.Same a b := by
  have related := j.related
  let m := j.traced.machine
  have reading : j.store.clock j.store.readings = m.clock m.readings := by
    rw [related.clock, related.readings]
  refine .inl ⟨.number (m.clock m.readings), .number (m.clock m.readings),
    ⟨j.world, ⟨{ m with readings := m.readings + 1 }, j.traced.notes⟩,
      { j.store with readings := j.store.readings + 1 }, ?_⟩, rfl, ?_,
    ⟨.refl _, rfl, fun _ present => present⟩, rfl, trivial⟩
  · refine { related with real := ?_, alike := { related.alike with }, readings := ?_ }
    · exact { related.real with
        frames := fun e frame known => (related.real.frames e frame known).congr rfl rfl }
    · exact congrArg (· + 1) related.readings
  · change EStateM.Result.ok (Value.number (j.store.clock j.store.readings)) _ = _
    rw [reading]

end Lox
