/-!
# Arguments

What the arguments of the command line ask for. They are read from left to right, and the first one
that settles the matter does: a request for help, or a mistake.
-/

namespace Lox.Shell

/-- What is wrong with an argument. -/
inductive Misuse where
  | unknownFlag (argument : String)
  | unexpectedArgument (argument : String)
deriving DecidableEq, Inhabited, Repr

def Misuse.message : Misuse → String
  | unknownFlag argument => "pylox: unknown flag '" ++ argument ++ "'"
  | unexpectedArgument argument => "pylox: unexpected argument '" ++ argument ++ "'"

inductive Command where
  | help
  | misuse (problem : Misuse)
  | file (verbose : Bool) (path : String)
  | prompt (verbose : Bool)
deriving DecidableEq, Inhabited, Repr

/-- What the remaining arguments ask for. An empty path stands for none so far. -/
def Command.ofArguments (verbose : Bool) (path : String) : List String → Command
  | [] => if path = "" then .prompt verbose else .file verbose path
  | argument :: rest =>
    if argument = "--help" ∨ argument = "-h" then .help
    else if argument = "--verbose" ∨ argument = "-v" then ofArguments true path rest
    else if argument.startsWith "-" then .misuse (.unknownFlag argument)
    else if path = "" then ofArguments verbose argument rest
    else .misuse (.unexpectedArgument argument)

/-- What a list of arguments asks for. -/
def Command.parse (arguments : List String) : Command := ofArguments false "" arguments

def usage : String :=
  "pylox [OPTIONS] [FILE]\n\nRun a Lox program, or start an interactive prompt when FILE is omitted.\n\nOptions:\n  --verbose  Log pipeline phases to stderr\n  --help     Show this help message\n"

end Lox.Shell
