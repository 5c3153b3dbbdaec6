import Lox.Proofs.Desugaring.Bridges
import Lox.Proofs.Heap.Handles

/-!
# Objects on both sides of a bridge

Bridged heaps hold the same natives, classes and instances, and their functions have one text, in which
the occurrences may have other numbers. So all that a program can ask of an object has one answer.
-/

namespace Lox

/-! ## Functions -/

/-- The closures have one text, which shifts along the ladder `inner`. -/
structure Closure.Bridged (V : Versions) (W : Bridge) (outer inner : Ladder) (c c' : Closure) :
    Prop where
  environment : W.Linked outer c.environment c'.environment
  isInitializer : c'.isInitializer = c.isInitializer
  declaration : ∃ r, c'.declaration = c.declaration.renumber r ∧ c.declaration.Shifts V r inner

/-- Closures that a program may call. An initializer is bound to an instance on both sides. -/
def Closure.BothCallable (V : Versions) (W : Bridge) (c c' : Closure) : Prop :=
  ∃ l, c.Bridged V W l l c' ∧ (c.isInitializer = true → l.Open)

/-- Closures of methods, which have still to be bound to an instance. -/
def Closure.BothMethods (V : Versions) (W : Bridge) (c c' : Closure) : Prop :=
  ∃ l, c.Bridged V W l (.common :: l) c'

namespace Closure

variable {V : Versions} {W W' : Bridge} {outer inner : Ladder} {c c' : Closure}

theorem Bridged.mono (grows : W.Grows W') (bridged : c.Bridged V W outer inner c') :
    c.Bridged V W' outer inner c' :=
  { bridged with environment := bridged.environment.mono grows }

theorem BothCallable.mono (grows : W.Grows W') (both : c.BothCallable V W c') :
    c.BothCallable V W' c' := by
  obtain ⟨l, bridged, bound⟩ := both
  exact ⟨l, bridged.mono grows, bound⟩

theorem BothMethods.mono (grows : W.Grows W') (both : c.BothMethods V W c') :
    c.BothMethods V W' c' := by
  obtain ⟨l, bridged⟩ := both
  exact ⟨l, bridged.mono grows⟩

theorem Bridged.name (bridged : c.Bridged V W outer inner c') :
    c'.declaration.name = c.declaration.name := by
  obtain ⟨r, same, -⟩ := bridged.declaration
  rw [same, Function.name_renumber]

theorem Bridged.parameters (bridged : c.Bridged V W outer inner c') :
    c'.declaration.parameters = c.declaration.parameters := by
  obtain ⟨r, same, -⟩ := bridged.declaration
  rw [same, Function.parameters_renumber]

theorem Bridged.arity (bridged : c.Bridged V W outer inner c') :
    c'.declaration.arity = c.declaration.arity := by
  rw [Function.arity, bridged.parameters]
  rfl

end Closure

/-! ## Heaps -/

/-- The heaps are as the bridge has it. -/
structure Heap.Bridged (V : Versions) (W : Bridge) (h h' : Heap) : Prop where
  spans : W.Spans h h'
  natives : h'.natives = h.natives
  classes : h'.classes = h.classes
  instances : h'.instances = h.instances
  functionCount : h'.functions.size = h.functions.size
  callable : ∀ f, W.callable f →
    f.index < h.functions.size ∧ (h.functionAt f).BothCallable V W (h'.functionAt f)
  method : ∀ f, W.method f →
    f.index < h.functions.size ∧ (h.functionAt f).BothMethods V W (h'.functionAt f)
  old : ∀ f : FunctionId, f.index < W.oldFunctions →
    f.index < h.functions.size ∧ h'.functionAt f = h.functionAt f
  fields : ∀ i, W.TableFits (h.instanceAt i).fields
  methods : ∀ c name f, (h.classAt c).methods.find? name = some f → W.method f
  honest : ∀ n, (h.nativeAt n).body.Honest

/-- The heaps hold the same objects. -/
structure Heap.SameObjects (h k : Heap) : Prop where
  natives : k.natives = h.natives
  functions : k.functions = h.functions
  classes : k.classes = h.classes
  instances : k.instances = h.instances

theorem Heap.SameObjects.refl (h : Heap) : h.SameObjects h := ⟨rfl, rfl, rfl, rfl⟩

namespace Heap.Bridged

variable {V : Versions} {W W' : Bridge} {h h' k k' : Heap} (bridged : h.Bridged V W h')
include bridged

/-! ### Reading -/

theorem nativeAt (n : NativeId) : h'.nativeAt n = h.nativeAt n := by
  rw [Heap.nativeAt, Heap.nativeAt, bridged.natives]

theorem classAt (c : ClassId) : h'.classAt c = h.classAt c := by
  rw [Heap.classAt, Heap.classAt, bridged.classes]

theorem instanceAt (i : InstanceId) : h'.instanceAt i = h.instanceAt i := by
  rw [Heap.instanceAt, Heap.instanceAt, bridged.instances]

theorem method? (c : ClassId) (name : String) : h'.method? c name = h.method? c name :=
  method?_congr bridged.classes c name

theorem method_of_found {c : ClassId} {name : String} {f : FunctionId}
    (found : h.method? c name = some f) : W.method f :=
  method?_each bridged.methods found

theorem classArity (c : ClassId) : h'.classArity c = h.classArity c := by
  rw [Heap.classArity, Heap.classArity, bridged.method?]
  cases found : h.method? c initializerName with
  | none => rfl
  | some f =>
    obtain ⟨-, l, closures⟩ := bridged.method f (bridged.method_of_found found)
    exact closures.arity

theorem arity? {v : Value} (fits : W.Fits v) : h'.arity? v = h.arity? v := by
  cases v with
  | native n => simp only [Heap.arity?, bridged.nativeAt]
  | function f =>
    obtain ⟨-, l, closures, -⟩ := bridged.callable f fits
    simp only [Heap.arity?, closures.arity]
  | «class» c => simp only [Heap.arity?, bridged.classArity]
  | _ => rfl

theorem display {v : Value} (fits : W.Fits v) : h'.display v = h.display v := by
  cases v with
  | function f =>
    obtain ⟨-, l, closures, -⟩ := bridged.callable f fits
    simp only [Heap.display, closures.name]
  | «class» c => simp only [Heap.display, bridged.classAt]
  | «instance» i => simp only [Heap.display, bridged.classAt, bridged.instanceAt]
  | _ => rfl

theorem member (i : InstanceId) (key : Occurrence) : h'.member i key = h.member i key := by
  simp only [Heap.member, bridged.instanceAt, bridged.method?]

theorem member_fits {i : InstanceId} {key : Occurrence} :
    (∀ v, h.member i key = .ok (.field v) → W.Fits v) ∧
      ∀ f, h.member i key = .ok (.method f) → W.method f := by
  rw [Heap.member]
  split
  · next v field =>
    constructor <;> rintro _ ⟨⟩
    exact bridged.fields i _ v field
  · split
    · next f found =>
      constructor <;> rintro _ ⟨⟩
      exact bridged.method_of_found found
    · constructor <;> rintro _ ⟨⟩

/-! ### Changes of environments -/

/-- The objects stay as they are while environments change. -/
theorem reshape (grows : W.Grows W') (callable : W'.callable = W.callable)
    (method : W'.method = W.method) (same : h.SameObjects k) (same' : h'.SameObjects k')
    (spans : W'.Spans k k') : k.Bridged V W' k' := by
  have functionAt : ∀ f, k.functionAt f = h.functionAt f := fun f => by
    rw [Heap.functionAt, Heap.functionAt, same.functions]
  have functionAt' : ∀ f, k'.functionAt f = h'.functionAt f := fun f => by
    rw [Heap.functionAt, Heap.functionAt, same'.functions]
  exact {
    spans
    natives := by rw [same.natives, same'.natives, bridged.natives]
    classes := by rw [same.classes, same'.classes, bridged.classes]
    instances := by rw [same.instances, same'.instances, bridged.instances]
    functionCount := by rw [same.functions, same'.functions, bridged.functionCount]
    callable := fun f known => by
      rw [same.functions, functionAt, functionAt']
      rw [callable] at known
      exact (bridged.callable f known).imp_right (·.mono grows)
    method := fun f known => by
      rw [same.functions, functionAt, functionAt']
      rw [method] at known
      exact (bridged.method f known).imp_right (·.mono grows)
    old := fun f old => by
      rw [same.functions, functionAt, functionAt']
      rw [grows.oldFunctions] at old
      exact bridged.old f old
    fields := fun i => by
      rw [Heap.instanceAt, same.instances]
      exact (bridged.fields i).mono grows
    methods := fun c name f found => by
      rw [Heap.classAt, same.classes] at found
      exact grows.method f (bridged.methods c name f found)
    honest := fun n => by
      rw [Heap.nativeAt, same.natives]
      exact bridged.honest n }

theorem define {o o' : EnvironmentId} (pair : W.pair o o') (name : String) {v : Value}
    (new : W.Fits v) : (h.define o name v).Bridged V W (h'.define o' name v) :=
  bridged.reshape (.refl W) rfl rfl ⟨rfl, rfl, rfl, rfl⟩ ⟨rfl, rfl, rfl, rfl⟩
    (bridged.spans.define pair name new)

/-- A name that is defined on both sides is known from then on. -/
theorem declare {o o' : EnvironmentId} (pair : W.pair o o') (name : String) {v : Value}
    (new : W.Fits v) :
    ∃ W', W.Grows W' ∧ (h.define o name v).Bridged V W' (h'.define o' name v) ∧
      W'.defined o o' name := by
  have defined := bridged.define pair name new
  have here : ((h.define o name v).environmentAt o).names.contains name = true := by
    rw [environmentAt_define _ _ _ _ _ (bridged.spans.inside o o' pair), if_pos rfl]
    simp [Table.contains_insert]
  have grows := W.grows_addName o o' name
  exact ⟨_, grows, defined.reshape grows rfl rfl (.refl _) (.refl _)
    (defined.spans.addName pair here), .inr ⟨rfl, rfl, rfl⟩⟩

/-- A new environment on each side, with the same names. -/
theorem newPair {l : Ladder} {o o' : EnvironmentId} (linked : W.Linked l o o') {names : Table Value}
    (fits : W.TableFits names) :
    ∃ W', W.Grows W' ∧
      (h.newEnvironment ⟨names, some o⟩).2.Bridged V W' (h'.newEnvironment ⟨names, some o'⟩).2 ∧
      W'.Linked (.common :: l) (h.newEnvironment ⟨names, some o⟩).1
        (h'.newEnvironment ⟨names, some o'⟩).1 := by
  have spans := bridged.spans.newPair fits o o'
  have grows := W.grows_addPair (h.newEnvironment ⟨names, some o⟩).1 o
    (h'.newEnvironment ⟨names, some o'⟩).1 o'
  exact ⟨_, grows, bridged.reshape grows rfl rfl ⟨rfl, rfl, rfl, rfl⟩ ⟨rfl, rfl, rfl, rfl⟩ spans,
    .common (.inr ⟨rfl, rfl⟩) (.inr ⟨rfl, rfl⟩) (.inr ⟨rfl, rfl⟩) (linked.mono grows)⟩

/-- A new environment in the first heap only. -/
theorem newLeft {l : Ladder} {o o' : EnvironmentId} (linked : W.Linked l o o') :
    ∃ W', W.Grows W' ∧ (h.newEnvironment ⟨.empty, some o⟩).2.Bridged V W' h' ∧
      W'.Linked (.left :: l) (h.newEnvironment ⟨.empty, some o⟩).1 o' := by
  have spans := bridged.spans.newBare o
  have grows := W.grows_addBare (h.newEnvironment ⟨.empty, some o⟩).1 o
  exact ⟨_, grows, bridged.reshape grows rfl rfl ⟨rfl, rfl, rfl, rfl⟩ (.refl h') spans,
    .left (.inr rfl) (.inr ⟨rfl, rfl⟩) (linked.mono grows)⟩

/-- A new environment in the second heap only. -/
theorem newRight {l : Ladder} {o o' : EnvironmentId} (linked : W.Linked l o o') :
    ∃ W', W.Grows W' ∧ h.Bridged V W' (h'.newEnvironment ⟨.empty, some o'⟩).2 ∧
      W'.Linked (.right :: l) o (h'.newEnvironment ⟨.empty, some o'⟩).1 := by
  have spans := (bridged.spans.swap.newBare o').swap
  have grows : W.Grows (W.swap.addBare (h'.newEnvironment ⟨.empty, some o'⟩).1 o').swap :=
    { Bridge.Grows.refl W with
      bare' := fun _ => .inl
      parent' := fun _ _ => .inl }
  exact ⟨_, grows, bridged.reshape grows rfl rfl (.refl h) ⟨rfl, rfl, rfl, rfl⟩ spans,
    .right (.inr rfl) (.inr ⟨rfl, rfl⟩) (linked.mono grows)⟩

/-! ### New objects -/

theorem newFunction_same (c c' : Closure) : (h'.newFunction c').1 = (h.newFunction c).1 := by
  rw [Heap.newFunction, Heap.newFunction, bridged.functionCount]

theorem newFunction {c c' : Closure} (grows : W.Grows W') (spans : W'.Spans h h')
    (callable : ∀ f, W'.callable f →
      W.callable f ∨ f = (h.newFunction c).1 ∧ c.BothCallable V W c')
    (method : ∀ f, W'.method f → W.method f ∨ f = (h.newFunction c).1 ∧ c.BothMethods V W c') :
    (h.newFunction c).2.Bridged V W' (h'.newFunction c').2 := by
  -- Both heaps have as many functions, so the new one has the same number on both.
  have same := bridged.newFunction_same c c'
  have size : (h.newFunction c).2.functions.size = h.functions.size + 1 := Array.size_push _
  have new : (h.newFunction c).1.index = h.functions.size := rfl
  have earlier : ∀ f : FunctionId, f.index < h.functions.size →
      (h.newFunction c).2.functionAt f = h.functionAt f ∧
        (h'.newFunction c').2.functionAt f = h'.functionAt f := by
    intro f inside
    have inside' : f.index < h'.functions.size := bridged.functionCount ▸ inside
    exact ⟨h.functionAt_newFunction_old c inside, h'.functionAt_newFunction_old c' inside'⟩
  have made : (h.newFunction c).2.functionAt (h.newFunction c).1 = c ∧
      (h'.newFunction c').2.functionAt (h.newFunction c).1 = c' := by
    rw [functionAt_newFunction, functionAt_newFunction, same, if_pos rfl, if_pos rfl]
    exact ⟨rfl, rfl⟩
  exact {
    spans := { spans with }
    natives := bridged.natives
    classes := bridged.classes
    instances := bridged.instances
    functionCount := by
      rw [size, ← bridged.functionCount]
      exact Array.size_push _
    callable := fun f known => by
      rcases callable f known with known | ⟨rfl, both⟩
      · obtain ⟨inside, both⟩ := bridged.callable f known
        rw [(earlier f inside).1, (earlier f inside).2, size]
        exact ⟨by omega, both.mono grows⟩
      · rw [made.1, made.2, size, new]
        exact ⟨by omega, both.mono grows⟩
    method := fun f known => by
      rcases method f known with known | ⟨rfl, both⟩
      · obtain ⟨inside, both⟩ := bridged.method f known
        rw [(earlier f inside).1, (earlier f inside).2, size]
        exact ⟨by omega, both.mono grows⟩
      · rw [made.1, made.2, size, new]
        exact ⟨by omega, both.mono grows⟩
    old := fun f old => by
      rw [grows.oldFunctions] at old
      obtain ⟨inside, same⟩ := bridged.old f old
      rw [(earlier f inside).1, (earlier f inside).2, size]
      exact ⟨by omega, same⟩
    fields := fun i => (bridged.fields i).mono grows
    methods := fun c name f found => grows.method f (bridged.methods c name f found)
    honest := bridged.honest }

theorem newCallable {c c' : Closure} (both : c.BothCallable V W c') :
    ∃ W', W.Grows W' ∧ (h.newFunction c).2.Bridged V W' (h'.newFunction c').2 ∧
      W'.callable (h.newFunction c).1 := by
  let W' : Bridge := { W with callable := fun f => W.callable f ∨ f = (h.newFunction c).1 }
  have grows : W.Grows W' := { Bridge.Grows.refl W with callable := fun _ => .inl }
  have spans : W'.Spans h h' :=
    { bridged.spans with fits := fun e e' pair => (bridged.spans.fits e e' pair).mono grows }
  exact ⟨W', grows, bridged.newFunction grows spans (fun f known => known.imp_right fun new => ⟨new, both⟩)
    (fun f => .inl), .inr rfl⟩

theorem newMethod {c c' : Closure} (both : c.BothMethods V W c') :
    ∃ W', W.Grows W' ∧ (h.newFunction c).2.Bridged V W' (h'.newFunction c').2 ∧
      W'.method (h.newFunction c).1 := by
  let W' : Bridge := { W with method := fun f => W.method f ∨ f = (h.newFunction c).1 }
  have grows : W.Grows W' := { Bridge.Grows.refl W with method := fun _ => .inl }
  have spans : W'.Spans h h' := { bridged.spans with }
  exact ⟨W', grows, bridged.newFunction grows spans (fun f => .inl)
    (fun f known => known.imp_right fun new => ⟨new, both⟩), .inr rfl⟩

/-- Methods are bound to instances on both sides. -/
theorem bind {f : FunctionId} (known : W.method f) (i : InstanceId) :
    (h'.bind f i).1 = (h.bind f i).1 ∧
      ∃ W', W.Grows W' ∧ (h.bind f i).2.Bridged V W' (h'.bind f i).2 ∧ W'.callable (h.bind f i).1 := by
  obtain ⟨-, l, closures⟩ := bridged.method f known
  have names : W.TableFits (Table.empty.insert "this" (.instance i)) :=
    Bridge.TableFits.empty.insert "this" trivial
  obtain ⟨W₁, first, made, linked⟩ := bridged.newPair closures.environment names
  have bound : ({ h.functionAt f with environment := (h.newEnvironment
      ⟨Table.empty.insert "this" (.instance i), some (h.functionAt f).environment⟩).1 } :
        Closure).BothCallable V W₁ { h'.functionAt f with environment := (h'.newEnvironment
      ⟨Table.empty.insert "this" (.instance i), some (h'.functionAt f).environment⟩).1 } :=
    ⟨.common :: l, ⟨linked, closures.isInitializer, closures.declaration⟩, fun _ => .here⟩
  obtain ⟨W₂, second, made', callable⟩ := made.newCallable bound
  exact ⟨made.newFunction_same _ _, W₂, first.trans second, made', callable⟩

theorem newClass (made : Class)
    (methods : ∀ name f, made.methods.find? name = some f → W.method f) :
    (h'.newClass made).1 = (h.newClass made).1 ∧
      (h.newClass made).2.Bridged V W (h'.newClass made).2 := by
  refine ⟨by rw [Heap.newClass, Heap.newClass, bridged.classes], ?_⟩
  exact { bridged with
    spans := { bridged.spans with }
    classes := congrArg (·.push made) bridged.classes
    methods := fun c name f found => by
      rw [classAt_newClass] at found
      split at found
      · exact methods name f found
      · exact bridged.methods c name f found }

theorem newInstance (c : ClassId) :
    (h'.newInstance c).1 = (h.newInstance c).1 ∧
      (h.newInstance c).2.Bridged V W (h'.newInstance c).2 := by
  refine ⟨by rw [Heap.newInstance, Heap.newInstance, bridged.instances], ?_⟩
  exact { bridged with
    spans := { bridged.spans with }
    instances := congrArg (·.push ⟨c, .empty⟩) bridged.instances
    fields := fun i => by
      rw [instanceAt_newInstance]
      split
      · exact .empty
      · exact bridged.fields i }

theorem setField (i : InstanceId) (name : String) {v : Value} (fits : W.Fits v) :
    (h.setField i name v).Bridged V W (h'.setField i name v) := by
  have fields : ∀ j, W.TableFits ((h.setField i name v).instanceAt j).fields := by
    intro j
    rw [Heap.instanceAt, Heap.setField, getD_modify]
    split
    · exact (bridged.fields j).insert name fits
    · exact bridged.fields j
  exact { bridged with
    spans := { bridged.spans with }
    instances := by rw [Heap.setField, Heap.setField, bridged.instances]
    fields }

end Heap.Bridged

end Lox
