import Lox.Proofs.Account.Incidents

/-!
# Moments of a run

A traced run notes where an occurrence is looked up, and how the environments came to be that hold
`super`, `this` and the parameters of a call.
-/

namespace Lox

inductive Moment where
  /-- An occurrence is looked up by a machine. -/
  | mention (form : MentionForm) (mention : Occurrence) (machine : Machine)
  /-- A class declaration made a class whose methods close over `inner`. -/
  | declared (text : ClassText) (parent : Option ClassId) (inner : EnvironmentId) (made : ClassId)
  /-- A method was bound to an instance, which made a function. -/
  | bound (method : FunctionId) (object : InstanceId) (made : FunctionId)
  /-- A function was called, and its body runs in `frame`. -/
  | called (f : FunctionId) (frame : EnvironmentId)

def Moment.scribe : Scribe Moment
  | machine, .mention form o => some (.mention form o machine)
  | _, .declared text parent inner c => some (.declared text parent inner c)
  | _, .bound method object made => some (.bound method object made)
  | _, .called call _ => some (.called call.function call.frame)
  | _, .raised _ _ | _, .caught _ _ | _, .completed _ _ => none

abbrev Traced := Noted Moment

abbrev TracedRun := NotedRun Moment

end Lox
