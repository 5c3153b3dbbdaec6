import Mathlib.Data.List.TakeWhile
import Lox.Shell.Run

/-!
# The classes of arguments

Each argument is a help flag, a verbose flag, an unknown flag or a positional, and what a command line
asks for is documented in these terms (`Documented`). The arguments are read with the path found so far
in hand, where the empty text stands for no path: an empty positional in front of all others goes
unnoticed. The reading is as documented except where such an argument should have counted
(`arguments_classified`).
-/

namespace Lox.Shell

/-! ## What is documented -/

inductive Kind where
  | help
  | verbose
  | unknown
  | positional
deriving DecidableEq, Repr

def kind (argument : String) : Kind :=
  if argument = "--help" ∨ argument = "-h" then .help
  else if argument = "--verbose" ∨ argument = "-v" then .verbose
  else if argument.startsWith "-" then .unknown
  else .positional

def positionals (arguments : List String) : List String :=
  arguments.filter (kind · = .positional)

def asksVerbose (arguments : List String) : Bool :=
  arguments.any (kind · = .verbose)

/-- A help flag comes before any unknown flag and before the second positional. -/
def HelpFirst (arguments : List String) : Prop :=
  ∃ before flag after, arguments = before ++ flag :: after ∧ kind flag = .help ∧
    (∀ argument ∈ before, kind argument ≠ .unknown) ∧ (positionals before).length ≤ 1

/-- There is an unknown flag or a second positional. -/
def Mistaken (arguments : List String) : Prop :=
  (∃ argument ∈ arguments, kind argument = .unknown) ∨ 2 ≤ (positionals arguments).length

/-- The commands that a list of arguments asks for by the documentation. -/
inductive Documented (arguments : List String) : Command → Prop where
  | help (first : HelpFirst arguments) : Documented arguments .help
  | misuse (problem : Misuse) (late : ¬HelpFirst arguments) (mistaken : Mistaken arguments) :
      Documented arguments (.misuse problem)
  | file {path : String} (late : ¬HelpFirst arguments) (correct : ¬Mistaken arguments)
      (single : positionals arguments = [path]) :
      Documented arguments (.file (asksVerbose arguments) path)
  | prompt (late : ¬HelpFirst arguments) (correct : ¬Mistaken arguments)
      (none : positionals arguments = []) :
      Documented arguments (.prompt (asksVerbose arguments))

/-! ## The arguments that settle nothing -/

/-- Whether the first argument of this kind settles what is asked for. -/
def Kind.settles : Kind → Bool
  | help | unknown => true
  | verbose | positional => false

/-- The arguments before the first help flag or unknown flag. -/
def front (arguments : List String) : List String :=
  arguments.takeWhile fun argument => !(kind argument).settles

/-- The arguments from the first help flag or unknown flag on. -/
def rest (arguments : List String) : List String :=
  arguments.dropWhile fun argument => !(kind argument).settles

theorem front_append_rest (arguments : List String) : front arguments ++ rest arguments = arguments :=
  List.takeWhile_append_dropWhile

theorem front_of_rest_nil {arguments : List String} (left : rest arguments = []) :
    front arguments = arguments := by
  have parts := front_append_rest arguments
  rwa [left, List.append_nil] at parts

theorem kind_of_mem_front {arguments : List String} {argument : String}
    (mem : argument ∈ front arguments) : kind argument = .verbose ∨ kind argument = .positional := by
  have undecided := List.mem_takeWhile_imp mem
  cases known : kind argument <;> simp_all [Kind.settles]

/-- What is left is nothing, or it begins with a flag of one of the two kinds. -/
theorem rest_cases (arguments : List String) :
    rest arguments = [] ∨
      ∃ flag after, rest arguments = flag :: after ∧ (kind flag = .help ∨ kind flag = .unknown) := by
  cases left : rest arguments with
  | nil => exact .inl rfl
  | cons flag after =>
    have settled := List.head?_dropWhile_not (fun argument => !(kind argument).settles) arguments
    rw [← rest, left] at settled
    refine .inr ⟨flag, after, rfl, ?_⟩
    cases known : kind flag <;> simp_all [Kind.settles]

/-! ## The reading -/

theorem ofArguments_cons (verbose : Bool) (path argument : String) (after : List String) :
    Command.ofArguments verbose path (argument :: after) =
      match kind argument with
      | .help => .help
      | .verbose => .ofArguments true path after
      | .unknown => .misuse (.unknownFlag argument)
      | .positional =>
        if path = "" then .ofArguments verbose argument after
        else .misuse (.unexpectedArgument argument) := by
  rw [Command.ofArguments, kind]
  split_ifs <;> rfl

/--
What is read behind arguments that settle nothing. The path in hand counts as one of the positionals,
and the empty ones in front do not count.
-/
theorem ofArguments_append (verbose : Bool) (path : String) {before : List String} (after : List String)
    (undecided : ∀ argument ∈ before, kind argument = .verbose ∨ kind argument = .positional) :
    Command.ofArguments verbose path (before ++ after) =
      match (path :: positionals before).dropWhile (· = "") with
      | [] => .ofArguments (verbose || asksVerbose before) "" after
      | [path] => .ofArguments (verbose || asksVerbose before) path after
      | _ :: second :: _ => .misuse (.unexpectedArgument second) := by
  induction before generalizing verbose path with
  | nil => by_cases empty : path = "" <;> simp [positionals, asksVerbose, empty]
  | cons argument before ih =>
    obtain ⟨here, undecided⟩ := List.forall_mem_cons.mp undecided
    rw [List.cons_append, ofArguments_cons]
    rcases here with flag | positional
    · -- A verbose flag only sets its mark.
      simp only [flag, ih _ _ undecided]
      simp [positionals, asksVerbose, flag]
    · simp only [positional]
      have marks : asksVerbose (argument :: before) = asksVerbose before := by
        simp [asksVerbose, positional]
      have found : positionals (argument :: before) = argument :: positionals before := by
        simp [positionals, positional]
      by_cases empty : path = ""
      · rw [if_pos empty, ih _ _ undecided, marks, found]
        simp [empty]
      · rw [if_neg empty, found]
        simp [empty]

/-- The positionals in front of the first help flag or unknown flag, from the first that is not empty. -/
def noticed (arguments : List String) : List String :=
  (positionals (front arguments)).dropWhile (· = "")

/-- The command in terms of the classes of the arguments. -/
theorem parse_eq (arguments : List String) :
    Command.parse arguments =
      match noticed arguments, rest arguments with
      | _ :: second :: _, _ => .misuse (.unexpectedArgument second)
      | _, flag :: _ => if kind flag = .help then .help else .misuse (.unknownFlag flag)
      | [path], [] => .file (asksVerbose arguments) path
      | [], [] => .prompt (asksVerbose arguments) := by
  have read := ofArguments_append false "" (rest arguments)
    fun _ (mem : _ ∈ front arguments) => kind_of_mem_front mem
  rw [front_append_rest, List.dropWhile_cons_of_pos (by simp)] at read
  rw [Command.parse, read, ← noticed]
  -- A path that counts is not the empty one.
  have named {path : String} {others : List String} (shape : noticed arguments = path :: others) :
      path ≠ "" := by
    have counts := List.head?_dropWhile_not (fun path => decide (path = ""))
      (positionals (front arguments))
    rw [← noticed, shape] at counts
    simpa using counts
  match shape : noticed arguments, left : rest arguments with
  | _ :: _ :: _, _ => rfl
  | [], [] => simp [Command.ofArguments, front_of_rest_nil left]
  | [path], [] => simp [Command.ofArguments, named shape, front_of_rest_nil left]
  | [], flag :: after | [path], flag :: after =>
    have settled : kind flag = .help ∨ kind flag = .unknown := by
      simpa [left] using rest_cases arguments
    rcases settled with known | known <;> simp [ofArguments_cons, known]

/-! ## The documentation, by the first argument that settles something -/

/-- A help flag with no unknown flag before it: the first flag that settles something is for help. -/
theorem front_of_help {before : List String} {flag : String} (after : List String)
    (help : kind flag = .help) (known : ∀ argument ∈ before, kind argument ≠ .unknown) :
    front (before ++ flag :: after) <+: before ∧
      ∃ first later, rest (before ++ flag :: after) = first :: later ∧ kind first = .help := by
  induction before with
  | nil => simp [front, rest, help, Kind.settles]
  | cons argument before ih =>
    obtain ⟨here, known⟩ := List.forall_mem_cons.mp known
    obtain ⟨shorter, first⟩ := ih known
    cases found : kind argument with
    | unknown => exact absurd found here
    | help => simp [front, rest, found, Kind.settles]
    | verbose | positional =>
      simp only [front, rest, List.cons_append, Kind.settles] at shorter first ⊢
      simp only [List.takeWhile_cons, List.dropWhile_cons, found, Bool.not_false, if_true]
      exact ⟨(List.prefix_cons_inj argument).mpr shorter, first⟩

theorem positionals_front_length_le (arguments : List String) :
    (positionals (front arguments)).length ≤ (positionals arguments).length :=
  (((List.takeWhile_prefix _).sublist).filter _).length_le

theorem helpFirst_iff (arguments : List String) :
    HelpFirst arguments ↔ (positionals (front arguments)).length ≤ 1 ∧
      ∃ flag after, rest arguments = flag :: after ∧ kind flag = .help := by
  constructor
  · rintro ⟨before, flag, after, rfl, help, known, few⟩
    obtain ⟨shorter, first⟩ := front_of_help after help known
    have fewer := (shorter.sublist.filter (kind · = .positional)).length_le
    exact ⟨fewer.trans few, first⟩
  · rintro ⟨few, flag, after, left, help⟩
    refine ⟨front arguments, flag, after, left ▸ (front_append_rest arguments).symm, help, ?_, few⟩
    intro argument mem unknown
    simpa [unknown] using kind_of_mem_front mem

theorem mistaken_of_unknown {arguments : List String} {flag : String} {after : List String}
    (left : rest arguments = flag :: after) (unknown : kind flag = .unknown) : Mistaken arguments := by
  refine .inl ⟨flag, ?_, unknown⟩
  rw [← front_append_rest arguments, left]
  simp

/-- Where no flag settles anything, a second positional is the only mistake there can be. -/
theorem mistaken_iff_of_rest_nil {arguments : List String} (left : rest arguments = []) :
    Mistaken arguments ↔ 2 ≤ (positionals arguments).length := by
  have whole := front_of_rest_nil left
  refine ⟨?_, .inr⟩
  rintro (⟨argument, mem, unknown⟩ | second)
  · have := kind_of_mem_front (whole.symm ▸ mem)
    simp [unknown] at this
  · exact second

/-! ## The reading against the documentation -/

/--
An empty argument is the first positional and goes unnoticed where it should have counted: as the file
to run, or as the first of two positionals.
-/
structure Overlooked (arguments : List String) : Prop where
  empty : (positionals (front arguments)).head? = some ""
  few : (noticed arguments).length ≤ 1
  counts : rest arguments = [] ∨
    2 ≤ (positionals (front arguments)).length ∧
      ∃ flag after, rest arguments = flag :: after ∧ kind flag = .help

theorem noticed_eq {arguments : List String}
    (named : (positionals (front arguments)).head? ≠ some "") :
    noticed arguments = positionals (front arguments) := by
  rw [noticed]
  cases found : positionals (front arguments) with
  | nil => rfl
  | cons path others => exact List.dropWhile_cons_of_neg (by simpa [found] using named)

theorem noticed_length_le (arguments : List String) :
    (noticed arguments).length ≤ (positionals (front arguments)).length :=
  (List.dropWhile_suffix _).length_le

theorem parse_documented {arguments : List String} (counted : ¬Overlooked arguments) :
    Documented arguments (Command.parse arguments) := by
  have bound := noticed_length_le arguments
  have second (two : 2 ≤ (positionals (front arguments)).length) : Mistaken arguments :=
    .inr (two.trans (positionals_front_length_le arguments))
  rcases rest_cases arguments with left | ⟨flag, after, left, help | unknown⟩
  · have late : ¬HelpFirst arguments := by simp [helpFirst_iff, left]
    have whole := front_of_rest_nil left
    have named (few : (noticed arguments).length ≤ 1) : noticed arguments = positionals arguments := by
      rw [noticed_eq fun empty => counted ⟨empty, few, .inl left⟩, whole]
    match shape : noticed arguments with
    | [] =>
      have none : positionals arguments = [] := by rw [← named (by simp [shape]), shape]
      rw [parse_eq, shape, left]
      exact .prompt late (by simp [mistaken_iff_of_rest_nil left, none]) none
    | [path] =>
      have single : positionals arguments = [path] := by rw [← named (by simp [shape]), shape]
      rw [parse_eq, shape, left]
      exact .file late (by simp [mistaken_iff_of_rest_nil left, single]) single
    | _ :: _ :: _ =>
      rw [parse_eq, shape]
      exact .misuse _ late (second (by simp only [shape, List.length_cons] at bound; omega))
  · have first : HelpFirst arguments ↔ (positionals (front arguments)).length ≤ 1 := by
      rw [helpFirst_iff]
      exact and_iff_left ⟨flag, after, left, help⟩
    -- Unless an empty argument is overlooked, as many positionals are noticed as there are.
    have all (few : (noticed arguments).length ≤ 1) : (positionals (front arguments)).length ≤ 1 := by
      by_contra two
      have empty : (positionals (front arguments)).head? ≠ some "" := fun empty =>
        counted ⟨empty, few, .inr ⟨by omega, flag, after, left, help⟩⟩
      exact two (noticed_eq empty ▸ few)
    match shape : noticed arguments with
    | [] | [_] =>
      rw [parse_eq, shape, left]
      simp only [help, if_true]
      exact .help (first.mpr (all (by simp [shape])))
    | _ :: _ :: _ =>
      have two : 2 ≤ (positionals (front arguments)).length := by
        simp only [shape, List.length_cons] at bound
        omega
      rw [parse_eq, shape]
      exact .misuse _ (by rw [first]; omega) (second two)
  · have late : ¬HelpFirst arguments := by simp [helpFirst_iff, left, unknown]
    have mistaken := mistaken_of_unknown left unknown
    rw [parse_eq, left]
    match noticed arguments with
    | [] | [_] => simpa [unknown] using .misuse _ late mistaken
    | _ :: _ :: _ => exact .misuse _ late mistaken

/--
Where an empty argument is overlooked, no mistake is reported although there is one, or the prompt is
started although there is a file to run.
-/
theorem Overlooked.strays {arguments : List String} (overlooked : Overlooked arguments) :
    ¬HelpFirst arguments ∧ (∀ problem, Command.parse arguments ≠ .misuse problem) ∧
      (Mistaken arguments ∨ ¬Mistaken arguments ∧ positionals arguments = [""] ∧
        Command.parse arguments = .prompt (asksVerbose arguments)) := by
  obtain ⟨empty, few, left | ⟨two, flag, after, left, help⟩⟩ := overlooked
  · have whole := front_of_rest_nil left
    rw [whole] at empty
    refine ⟨by simp [helpFirst_iff, left], fun problem => ?_, ?_⟩
    · match shape : noticed arguments with
      | [] | [_] => simp [parse_eq, shape, left]
      | _ :: _ :: _ => simp [shape] at few
    · obtain ⟨others, found⟩ : ∃ others, positionals arguments = "" :: others := by
        cases found : positionals arguments <;> simp_all
      cases others with
      | cons path others => exact .inl (.inr (by simp [found]))
      | nil =>
        have nothing : noticed arguments = [] := by simp [noticed, whole, found]
        exact .inr ⟨by simp [mistaken_iff_of_rest_nil left, found], found,
          by rw [parse_eq, nothing, left]⟩
  · refine ⟨by rw [helpFirst_iff]; omega, fun problem => ?_,
      .inl (.inr (two.trans (positionals_front_length_le arguments)))⟩
    match shape : noticed arguments with
    | [] | [_] => simp [parse_eq, shape, left, help]
    | _ :: _ :: _ => simp [shape] at few

/-! ## What the program does -/

/-- How a list of arguments is answered by the documentation, in any session and any directory. -/
structure AsDocumented (arguments : List String)
    (answer : Limits → Session → Directory → String → Transcript × Ending) : Prop where
  help : HelpFirst arguments → ∀ limits session directory input,
    answer limits session directory input = (⟨usage, ""⟩, .exit 0)
  misuse : ¬HelpFirst arguments → Mistaken arguments → ∃ message, ∀ limits session directory input,
    answer limits session directory input = (⟨"", message ++ "\n" ++ usage⟩, .exit 64)
  file : ¬HelpFirst arguments → ¬Mistaken arguments → ∀ path, positionals arguments = [path] →
    ∀ limits session directory input, answer limits session directory input =
      runFile limits session (asksVerbose arguments) path (directory.read path)
  prompt : ¬HelpFirst arguments → ¬Mistaken arguments → positionals arguments = [] →
    ∀ limits session directory input, answer limits session directory input =
      runPrompt limits (asksVerbose arguments)
        ((Text.lines (Text.unifyLineEnds input.toList)).map String.ofList) session .empty

/-- The answer to a list of arguments. -/
def answer (arguments : List String) (limits : Limits) (session : Session) (directory : Directory)
    (input : String) : Transcript × Ending :=
  runCommand limits session directory input (Command.parse arguments)

theorem Documented.asDocumented {arguments : List String}
    (documented : Documented arguments (Command.parse arguments)) :
    AsDocumented arguments (answer arguments) := by
  unfold answer
  generalize Command.parse arguments = command at documented
  cases documented with
  | help first =>
    exact { help := fun _ _ _ _ _ => rfl
            misuse := fun late => absurd first late
            file := fun late => absurd first late
            prompt := fun late => absurd first late }
  | misuse problem late mistaken =>
    exact { help := fun first => absurd first late
            misuse := fun _ _ => ⟨problem.message, fun _ _ _ _ => rfl⟩
            file := fun _ correct => absurd mistaken correct
            prompt := fun _ correct => absurd mistaken correct }
  | file late correct single =>
    refine { help := fun first => absurd first late
             misuse := fun _ mistaken => absurd mistaken correct
             file := fun _ _ path found _ _ _ _ => ?_
             prompt := fun _ _ none => by simp [none] at single }
    obtain rfl : _ = path := by simpa [single] using found
    rfl
  | prompt late correct none =>
    exact { help := fun first => absurd first late
            misuse := fun _ mistaken => absurd mistaken correct
            file := fun _ _ path single => by simp [none] at single
            prompt := fun _ _ _ _ _ _ _ => rfl }

theorem runCommand_prompt_end (limits : Limits) (session : Session) (directory : Directory)
    (verbose : Bool) : (runCommand limits session directory "" (.prompt verbose)).2 = .exit 0 := by
  simp [runCommand, Text.unifyLineEnds, Text.unifyFrom, Text.lines, Text.linesFrom, runPrompt, promptEnd]

/-- The empty path leads to no file. -/
theorem runFile_empty_path (limits : Limits) (session : Session) (verbose : Bool) :
    (runFile limits session verbose "" (Directory.read ⟨[]⟩ "")).2 = .exit inputCode := by
  have noName : "".splitOn "/" = [""] := by
    rw [String.splitOn, if_neg (by decide), String.splitOnAux]
    decide +kernel
  have fails : (Directory.read ⟨[]⟩ "").isOk = false := by
    rw [Directory.read, Directory.bytesAt, noName]
    decide +kernel
  cases content : Directory.read ⟨[]⟩ "" with
  | error => simp [runFile]
  | ok =>
    rw [content] at fails
    cases fails

/-- Only a misuse ends with the code of a misuse. -/
theorem runCommand_ne_usage (limits : Limits) (session : Session) (directory : Directory)
    {command : Command} (proper : ∀ problem, command ≠ .misuse problem) :
    (runCommand limits session directory "" command).2 ≠ .exit usageCode := by
  cases command with
  | help => simp [runCommand, helpTranscript, usageCode]
  | misuse problem => exact absurd rfl (proper problem)
  | file verbose path =>
    simp only [runCommand, runFile]
    split
    · simp
    · split
      · simp [inputCode, usageCode]
      · next source _ =>
        cases (session.run limits source).1.verdict with
        | escaped escape => cases escape <;> simp [fileEnding, softwareCode, usageCode]
        | _ => simp [fileEnding, dataCode, softwareCode, usageCode]
  | prompt verbose => simp [runCommand_prompt_end, usageCode]

theorem Overlooked.not_asDocumented {arguments : List String} (overlooked : Overlooked arguments) :
    ¬AsDocumented arguments (answer arguments) := by
  intro served
  obtain ⟨late, proper, mistaken | ⟨correct, single, prompt⟩⟩ := overlooked.strays
  · obtain ⟨message, misused⟩ := served.misuse late mistaken
    have code := congrArg Prod.snd (misused default default ⟨[]⟩ "")
    exact runCommand_ne_usage default default ⟨[]⟩ proper code
  · -- Run as a file, the empty path is an input that cannot be read. The prompt ends with its input.
    have code := congrArg Prod.snd (served.file late correct "" single default default ⟨[]⟩ "")
    rw [answer, prompt, runCommand_prompt_end, runFile_empty_path] at code
    simp [inputCode] at code

/-! ## Without the empty arguments in front -/

/-- The arguments without the empty ones in front of every other positional. -/
def withoutEmptyFront : List String → List String
  | [] => []
  | argument :: after =>
    if argument = "" then withoutEmptyFront after
    else if kind argument = .positional then argument :: after
    else argument :: withoutEmptyFront after

theorem kind_empty : kind "" = .positional := by decide +kernel

/-- An empty argument leaves the reading where it was as long as there is no path. -/
theorem ofArguments_withoutEmptyFront (verbose : Bool) (arguments : List String) :
    Command.ofArguments verbose "" (withoutEmptyFront arguments) =
      Command.ofArguments verbose "" arguments := by
  induction arguments generalizing verbose with
  | nil => rfl
  | cons argument after ih =>
    rw [withoutEmptyFront]
    split_ifs with empty positional
    · subst empty
      simp [ofArguments_cons, kind_empty, ih]
    · rfl
    · rw [ofArguments_cons, ofArguments_cons]
      cases found : kind argument <;> simp_all

theorem withoutEmptyFront_counted (arguments : List String) :
    ¬Overlooked (withoutEmptyFront arguments) := by
  rintro ⟨empty, -, -⟩
  induction arguments with
  | nil => simp [withoutEmptyFront, front, positionals] at empty
  | cons argument after ih =>
    rw [withoutEmptyFront] at empty
    split_ifs at empty with vacant positional
    · exact ih empty
    · simp [front, positionals, positional, Kind.settles, vacant] at empty
    · cases found : kind argument <;> simp_all [front, positionals, Kind.settles]

/--
The answer to a command line is the documented one if and only if no empty argument is overlooked, and
in any case it is the documented answer to the arguments that are left without the empty ones in front
of every other positional.
-/
theorem arguments_classified (arguments : List String) :
    (AsDocumented arguments (answer arguments) ↔ ¬Overlooked arguments) ∧
      AsDocumented (withoutEmptyFront arguments) (answer arguments) := by
  refine ⟨⟨fun served overlooked => overlooked.not_asDocumented served,
    fun counted => (parse_documented counted).asDocumented⟩, ?_⟩
  have same : answer (withoutEmptyFront arguments) = answer arguments := by
    unfold answer
    rw [Command.parse, ofArguments_withoutEmptyFront, ← Command.parse]
  rw [← same]
  exact (parse_documented (withoutEmptyFront_counted arguments)).asDocumented

/-- An empty argument and a file: the file is run, although it is a second positional. -/
example : Overlooked ["", "a.lox"] where
  empty := by decide +kernel
  few := by decide +kernel
  counts := .inl (by decide +kernel)

end Lox.Shell
