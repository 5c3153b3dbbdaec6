import Lox.Proofs.Cursor.Runs

/-!
# Recovery from faults

Every fault that is raised ends just one declaration, the innermost around it. The parse goes on at the
first boundary from the offending token on if that token begins no statement, and only then: a token that
begins a statement is passed over when it is itself the offending one.
-/

namespace Lox

open Cursor (Resumes Boundary endIndex caught initial)

/--
A parse raises the faults that its declarations end with, in the same order. Where a declaration ends with
a fault at index `i`, the parse goes on at the index that `Resumes` describes.
-/
theorem parse?_resumes (start : Nat) (tokens : List Token)
    (ended : ∃ t ∈ tokens, t.kind = .endOfInput) (depth : Nat)
    (ample : 2 * endIndex tokens + 2 ≤ depth) :
    ∃ statements c, Cursor.program depth (initial start tokens) = .ok statements c ∧
      parse? depth start tokens = some ⟨statements, c.errors⟩ ∧
      c.errors.filter (·.fault.raised) = caught c.attempts ∧
      ∀ a ∈ c.attempts, ∀ e, a.raised? = some e →
        ∃ i t, a.first ≤ i ∧ tokens[i]? = some t ∧ e.place = ⟨start + i, t⟩ ∧
          Resumes tokens i a.last := by
  obtain ⟨I, statements, c, rfl, rfl, -, walk, parses, -, sound⟩ :=
    Cursor.program_walks start ended ample
  refine ⟨statements, c, walk, parses, ?_, fun a finished e raised => ?_⟩
  · simpa using sound.raised
  · obtain ⟨-, i, first, -, ⟨t, here, place⟩, resumes⟩ := (sound.attempts a finished).caught e raised
    exact ⟨i, t, first, here, place, resumes⟩

/-- The tokens of `print 1 var 2;`. -/
def strayKeyword : List Token :=
  [.ofKind .kwPrint "print", .ofKind .number "1", .ofKind .kwVar "var", .ofKind .number "2",
    .ofKind .semicolon ";", endToken 1]

/-- The walk over these tokens: one fault, at the keyword, after which it goes on at the end. -/
def passedOver : Cursor where
  tokens := strayKeyword
  start := 0
  position := 5
  errors := [⟨.noPrintEnd, ⟨2, .ofKind .kwVar "var"⟩⟩]
  visited := [0, 1, 2, 3, 4, 5]
  attempts := [⟨0, 5, 1, some ⟨.noPrintEnd, ⟨2, .ofKind .kwVar "var"⟩⟩⟩]

/--
The offending token is a boundary, but the parse goes on behind it. So the second statement is not read,
and the fault that no name follows `var` is not noted.
-/
theorem parse?_resumes_strayKeyword :
    Cursor.program 12 (initial 0 strayKeyword) = .ok [] passedOver ∧
      parse? 12 0 strayKeyword = some ⟨[], passedOver.errors⟩ ∧
      Resumes strayKeyword 2 5 ∧ ¬IsLeast {k | Boundary strayKeyword 2 k} 5 := by
  have run : Cursor.program 12 (initial 0 strayKeyword) = .ok [] passedOver := by rfl
  have ended : ∃ t ∈ strayKeyword, t.kind = .endOfInput := by decide
  obtain ⟨statements, c, walk, parses, -, goesOn⟩ :=
    parse?_resumes 0 strayKeyword ended 12 (by decide)
  rw [run] at walk
  cases walk
  obtain ⟨i, t, -, here, place, resumes⟩ := goesOn _ (List.mem_singleton.2 rfl) _ rfl
  obtain rfl : i = 2 := by
    have number : 2 = 0 + i := congrArg Occurrence.id place
    omega
  refine ⟨run, parses, resumes, fun least => ?_⟩
  obtain ⟨t', here', first, -⟩ := resumes
  cases here'
  cases first.1 least

end Lox
