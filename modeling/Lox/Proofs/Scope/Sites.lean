import Lox.Proofs.Scope.Regular

/-!
# Sites of statements

The sites of a program are its statements, at whatever depth, each with the place where the resolver
comes to it. What holds of the program as a whole holds at each of its sites.
-/

namespace Lox

/-- A statement and the place where the resolver comes to it. -/
structure Site where
  statement : Stmt
  place : Place

mutual

/-- The sites of a statement: its own, and those of the statements in it. -/
def Stmt.sites (p : Place) (s : Stmt) : List Site :=
  ⟨s, p⟩ ::
    match s with
    | .block body => Stmt.allSites (p.enter .empty (.block body)) body
    | .ite _ thenBranch none => thenBranch.sites p
    | .ite _ thenBranch (some elseBranch) =>
      thenBranch.sites p ++ elseBranch.sites (thenBranch.after p)
    | .while _ body => body.sites p
    | .function declaration =>
      declaration.sites ((p.declareComplete declaration.name).withFunction .function)
    | .class name superclass methods =>
      Function.methodSites (p.enterClass ⟨name, superclass, methods⟩) methods
    | _ => []

def Stmt.allSites (p : Place) : List Stmt → List Site
  | [] => []
  | s :: rest => s.sites p ++ Stmt.allSites (s.after p) rest

def Function.sites (p : Place) : Function → List Site
  | .mk name parameters body => Stmt.allSites (p.enterFunction (.mk name parameters body)) body

def Function.methodSites (p : Place) : List Function → List Site
  | [] => []
  | f :: rest => f.sites (p.withFunction f.methodContext) ++ Function.methodSites p rest

end

def programSites (program : Program) : List Site := Stmt.allSites .topLevel program

/-- The site is one among those whose visits are given. -/
structure Site.Lies (visits : List Visit) (site : Site) : Prop where
  placed : site.statement.WellPlaced
  regular : site.place.IsRegular
  visits : (site.statement.visits site.place).Sublist visits

theorem Site.Lies.mono {visits others : List Visit} (part : visits.Sublist others) {site : Site}
    (lies : site.Lies visits) : site.Lies others :=
  { lies with visits := lies.visits.trans part }

mutual

theorem Stmt.sites_lie {p : Place} (regular : p.IsRegular) (s : Stmt) (placed : s.WellPlaced)
    (spelled : ∀ x ∈ s.subjects, x.Spelled) : ∀ site ∈ s.sites p, site.Lies (s.visits p) := by
  have here : Site.Lies (s.visits p) ⟨s, p⟩ := ⟨placed, regular, .refl _⟩
  match s with
  | .expression _ | .print _ | .var _ none | .var _ (some _) | .return _ none | .return _ (some _) =>
    exact List.forall_mem_singleton.2 here
  | .block body =>
    refine List.forall_mem_cons.2 ⟨here, ?_⟩
    exact Stmt.allSites_lie (p := p.enter .empty (.block body)) (.block .empty regular) body placed
      spelled
  | .ite condition thenBranch none =>
    rw [Stmt.WellPlaced] at placed
    obtain ⟨-, spelledThen⟩ := List.forall_mem_append.1 spelled
    refine List.forall_mem_cons.2 ⟨here, fun site found => ?_⟩
    exact (Stmt.sites_lie regular thenBranch placed.2 spelledThen site found).mono
      (List.sublist_append_right _ _)
  | .ite condition thenBranch (some elseBranch) =>
    rw [Stmt.WellPlaced] at placed
    obtain ⟨⟨-, placedThen⟩, -, placedElse⟩ := placed
    obtain ⟨spelledBoth, spelledElse⟩ := List.forall_mem_append.1 spelled
    obtain ⟨-, spelledThen⟩ := List.forall_mem_append.1 spelledBoth
    -- The visits of a branch are a part of those of the whole statement.
    refine List.forall_mem_cons.2 ⟨here, List.forall_mem_append.2
      ⟨fun site found => ?_, fun site found => ?_⟩⟩
    · exact (Stmt.sites_lie regular thenBranch placedThen spelledThen site found).mono
        ((List.sublist_append_right _ _).trans (List.sublist_append_left _ _))
    · exact (Stmt.sites_lie (Stmt.after_regular placedThen spelledThen regular) elseBranch placedElse
        spelledElse site found).mono (List.sublist_append_right _ _)
  | .while condition body =>
    rw [Stmt.WellPlaced] at placed
    obtain ⟨-, spelledBody⟩ := List.forall_mem_append.1 spelled
    refine List.forall_mem_cons.2 ⟨here, fun site found => ?_⟩
    exact (Stmt.sites_lie regular body placed.2 spelledBody site found).mono
      (List.sublist_append_right _ _)
  | .function declaration =>
    obtain ⟨spelledName, spelledFunction⟩ := List.forall_mem_cons.1 spelled
    have inside : ((p.declareComplete declaration.name).withFunction .function).FunctionRegular
        declaration := fun _ plain => .function plain (regular.declareComplete spelledName)
    refine List.forall_mem_cons.2 ⟨here, fun site found => ?_⟩
    exact (Function.sites_lie declaration inside placed spelledFunction site found).mono
      (List.sublist_cons_self _ _)
  | .class name superclass methods =>
    obtain ⟨spelledHead, spelledMethods⟩ := List.forall_mem_append.1 spelled
    obtain ⟨spelledName, -⟩ := List.forall_mem_cons.1 spelledHead
    refine List.forall_mem_cons.2 ⟨here, fun site found => ?_⟩
    exact (Function.methodSites_lie methods
      (fun f member => Place.enterClass_functionRegular regular ⟨name, superclass, methods⟩
        spelledName member _) placed spelledMethods site found).mono (List.sublist_append_right _ _)

theorem Stmt.allSites_lie {p : Place} (regular : p.IsRegular) (ss : List Stmt)
    (placed : Stmt.AllWellPlaced ss) (spelled : ∀ x ∈ Stmt.allSubjects ss, x.Spelled) :
    ∀ site ∈ Stmt.allSites p ss, site.Lies (Stmt.allVisits p ss) := by
  cases ss with
  | nil => exact nofun
  | cons s rest =>
    obtain ⟨spelledHere, spelledRest⟩ := List.forall_mem_append.1 spelled
    refine List.forall_mem_append.2 ⟨fun site found => ?_, fun site found => ?_⟩
    · exact (Stmt.sites_lie regular s placed.1 spelledHere site found).mono
        (List.sublist_append_left _ _)
    · exact (Stmt.allSites_lie (Stmt.after_regular placed.1 spelledHere regular) rest placed.2
        spelledRest site found).mono (List.sublist_append_right _ _)

theorem Function.sites_lie {p : Place} (f : Function) (regular : p.FunctionRegular f)
    (placed : f.WellPlaced) (spelled : ∀ x ∈ f.subjects, x.Spelled) :
    ∀ site ∈ f.sites p, site.Lies (f.visits p) := by
  cases f with
  | mk name parameters body =>
    obtain ⟨spelledParameters, spelledBody⟩ := List.forall_mem_append.1 spelled
    have ordinary : ∀ name ∈ parameters, IsOrdinary name.lexeme := fun name member =>
      spelledParameters _ (List.mem_map_of_mem member)
    have inside := (regular .empty .empty).parameters ordinary
    intro site found
    exact (Stmt.allSites_lie inside body placed spelledBody site found).mono
      (List.sublist_append_right _ _)

theorem Function.methodSites_lie {p : Place} (fs : List Function)
    (regular : ∀ f ∈ fs, (p.withFunction f.methodContext).FunctionRegular f)
    (placed : Function.AllWellPlaced fs) (spelled : ∀ x ∈ Function.allSubjects fs, x.Spelled) :
    ∀ site ∈ Function.methodSites p fs, site.Lies (Function.methodVisits p fs) := by
  cases fs with
  | nil => exact nofun
  | cons f rest =>
    obtain ⟨regularHere, regularRest⟩ := List.forall_mem_cons.1 regular
    obtain ⟨spelledHere, spelledRest⟩ := List.forall_mem_append.1 spelled
    refine List.forall_mem_append.2 ⟨fun site found => ?_, fun site found => ?_⟩
    · exact (Function.sites_lie f regularHere placed.1 spelledHere site found).mono
        (List.sublist_append_left _ _)
    · exact (Function.methodSites_lie rest regularRest placed.2 spelledRest site found).mono
        (List.sublist_append_right _ _)

end

theorem programSites_lie {program : Program} (placed : Stmt.AllWellPlaced program)
    (spelled : ∀ x ∈ Stmt.allSubjects program, x.Spelled) :
    ∀ site ∈ programSites program, site.Lies (programVisits program) :=
  Stmt.allSites_lie (p := .topLevel) .topLevel program placed spelled

end Lox
