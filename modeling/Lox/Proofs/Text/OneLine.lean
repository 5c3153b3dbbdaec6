import Lox.Proofs.Number.Scanning
import Lox.Session
import Lox.Text.Lines

/-!
# Texts of one line

A report is meant to be one line of text. Its message is one, and so is the lexeme of every token but a
string, which may go on over line ends. Lines that are written one after the other can be told apart again
if and only if each of them is one line.
-/

namespace Lox

/-- The text has no line end in it. -/
def OneLine (text : String) : Prop := '\n' ∉ text.toList

instance (text : String) : Decidable (OneLine text) := inferInstanceAs (Decidable (_ ∉ _))

@[simp] theorem oneLine_append {a b : String} : OneLine (a ++ b) ↔ OneLine a ∧ OneLine b := by
  simp [OneLine]

/-! ## Lines and the text of them -/

theorem textOfLines_toList (lines : List String) :
    (textOfLines lines).toList = lines.flatMap fun line => line.toList ++ ['\n'] := by
  have behind : ∀ text : String, (lines.foldl (fun text line => text ++ line ++ "\n") text).toList =
      text.toList ++ lines.flatMap fun line => line.toList ++ ['\n'] := by
    induction lines with
    | nil => simp
    | cons line rest inductionHypothesis =>
      intro text
      rw [List.foldl_cons, inductionHypothesis]
      simp
  simpa [textOfLines] using behind ""

namespace Text

/-- What is found does not depend on what has been found before. -/
theorem linesFrom_found (text line : List Char) (found : List (List Char)) :
    linesFrom text line found = found.reverse ++ linesFrom text line [] := by
  induction text generalizing line found with
  | nil => cases line <;> simp [linesFrom]
  | cons c rest inductionHypothesis =>
    by_cases ends : c = '\n'
    · subst ends
      rw [linesFrom, linesFrom, inductionHypothesis, inductionHypothesis [] [line.reverse]]
      simp
    · rw [linesFrom, linesFrom, inductionHypothesis]
      · simpa using ends
      · simpa using ends

/-- A line that has a line end is taken off the front. -/
theorem lines_line {line : List Char} (single : '\n' ∉ line) (rest : List Char) :
    lines (line ++ '\n' :: rest) = line :: lines rest := by
  have goesOn : ∀ begun, linesFrom (line ++ '\n' :: rest) begun [] =
      (begun.reverse ++ line) :: lines rest := by
    induction line with
    | nil =>
      intro begun
      rw [List.nil_append, linesFrom, linesFrom_found, lines]
      simp
    | cons c line inductionHypothesis =>
      intro begun
      rw [List.mem_cons, not_or] at single
      rw [List.cons_append, linesFrom, inductionHypothesis single.2]
      · simp
      · simpa using Ne.symm single.1
  simpa [lines] using goesOn []

/-- No line end is left in the lines of a text. -/
theorem not_mem_of_mem_linesFrom {text begun : List Char} {found : List (List Char)}
    (first : '\n' ∉ begun) (before : ∀ line ∈ found, '\n' ∉ line) :
    ∀ line ∈ linesFrom text begun found, '\n' ∉ line := by
  induction text generalizing begun found with
  | nil =>
    cases begun with
    | nil => simpa [linesFrom] using before
    | cons c begun =>
      simp only [linesFrom, List.mem_reverse]
      exact List.forall_mem_cons.2 ⟨by simpa [and_comm] using first, before⟩
  | cons c rest inductionHypothesis =>
    by_cases ends : c = '\n'
    · subst ends
      rw [linesFrom]
      refine inductionHypothesis (by simp) (List.forall_mem_cons.2 ⟨?_, before⟩)
      simpa using first
    · rw [linesFrom]
      · exact inductionHypothesis (by simpa using ⟨Ne.symm ends, first⟩) before
      · simpa using ends

end Text

/-- Written lines can be told apart again if and only if each is one line. -/
theorem lines_textOfLines (texts : List String) :
    Text.lines (textOfLines texts).toList = texts.map String.toList ↔ ∀ text ∈ texts, OneLine text := by
  rw [textOfLines_toList]
  constructor
  · -- What is read back has no line end in it, so a text with one cannot be among it.
    intro same text member
    have among : text.toList ∈ texts.map String.toList := List.mem_map_of_mem member
    rw [← same] at among
    exact Text.not_mem_of_mem_linesFrom (by simp) (by simp) _ among
  · intro single
    induction texts with
    | nil => rfl
    | cons text rest inductionHypothesis =>
      obtain ⟨here, single⟩ := List.forall_mem_cons.1 single
      rw [List.flatMap_cons, List.append_assoc, List.singleton_append, Text.lines_line here,
        inductionHypothesis single, List.map_cons]

/-! ## Numbers -/

theorem oneLine_natToString (n : Nat) : OneLine (toString n) := by
  have digits : (toString n).toList = Nat.toDigits 10 n := by
    rw [Nat.toString_eq_ofList_toDigits, String.toList_ofList]
  rw [OneLine, digits]
  exact Number.not_mem_of_numeral (Number.toDigits_numeral n) (by decide)

theorem oneLine_intToString (n : Int) : OneLine (toString n) := by
  cases n with
  | ofNat n => exact oneLine_natToString n
  | negSucc n =>
    change OneLine ("-" ++ toString (n + 1))
    exact oneLine_append.2 ⟨by decide, oneLine_natToString _⟩

/-! ## Messages -/

theorem ScanFault.oneLine (fault : ScanFault) : OneLine fault.message := by
  cases fault <;> simp [OneLine, message]

theorem ParseFault.oneLine (fault : ParseFault) : OneLine fault.message := by
  cases fault with
  | noFunctionName form | noParameters form | noFunctionBody form => cases form <;> decide +kernel
  | _ => decide +kernel

theorem ScopeFault.oneLine (fault : ScopeFault) : OneLine fault.message := by
  cases fault <;> simp [OneLine, message]

theorem StaticError.message_oneLine (e : StaticError) : OneLine e.message := by
  cases e with
  | scan e => exact e.fault.oneLine
  | parse e => exact e.fault.oneLine
  | scope e => exact e.fault.oneLine

/-- The message of a runtime error is on one line if the name that it quotes is. -/
theorem RuntimeFault.oneLine {fault : RuntimeFault}
    (quoted : ∀ name, fault = .undefinedVariable name ∨ fault = .undefinedProperty name → OneLine name) :
    OneLine fault.message := by
  cases fault with
  -- What quotes something is unfolded by hand: the equations of `message` are costly to generate.
  | undefinedVariable name =>
    have single := quoted name (.inl rfl)
    change OneLine ("Undefined variable '" ++ name ++ "'.")
    simpa [OneLine] using single
  | undefinedProperty name =>
    have single := quoted name (.inr rfl)
    change OneLine ("Undefined property '" ++ name ++ "'.")
    simpa [OneLine] using single
  | wrongArity expected found =>
    have numbers : OneLine (toString expected ++ toString found) :=
      oneLine_append.2 ⟨oneLine_natToString expected, oneLine_natToString found⟩
    change OneLine ("Expected " ++ toString expected ++ " arguments but got " ++ toString found ++ ".")
    simpa [OneLine] using numbers
  | _ => decide

/-! ## Lexemes -/

theorem IsWord.oneLine {text : List Char} (word : IsWord text) : '\n' ∉ text := by
  obtain ⟨c, cs, rfl, letter, parts⟩ := word
  rw [List.mem_cons, not_or]
  refine ⟨?_, fun member => ?_⟩
  · rintro rfl
    cases letter
  · cases parts _ member

/-- Of the lexemes of tokens, only those of strings go on over a line end. -/
theorem Lexeme.oneLine {kind : TokenKind} {literal : Literal} {text : List Char}
    (lexeme : Lexeme (.token kind literal) text) (other : kind ≠ .string) : '\n' ∉ text := by
  cases lexeme with
  -- The newline is not the mark of any token, and it is neither a digit nor a part of a word.
  | punctuation mark =>
    rw [List.mem_singleton]
    rintro rfl
    cases mark
  | slash => decide
  | operator mark =>
    rw [List.mem_singleton]
    rintro rfl
    cases mark
  | operatorEqual mark =>
    rw [List.mem_pair]
    rintro (rfl | ends)
    · cases mark
    · cases ends
  | whole numeral => exact Number.not_mem_of_numeral numeral (by decide)
  | fraction numeral decimal =>
    have before := Number.not_mem_of_numeral numeral (c := '\n') (by decide)
    have behind := Number.not_mem_of_numeral decimal (c := '\n') (by decide)
    simp [before, behind]
  | string => exact absurd rfl other
  | reserved word _ => exact word.oneLine
  | identifier word _ => exact word.oneLine

theorem scan_oneLine {source : String} {t : Token} (member : t ∈ (scan source).tokens)
    (other : t.kind ≠ .string) : OneLine t.lexeme := by
  rw [scan_tokens, List.mem_append, List.mem_singleton] at member
  obtain member | rfl := member
  · have scannable : t.Scannable := (segments_cuts source.toList).scannable t member
    exact scannable.oneLine other
  · exact (by decide : OneLine "")

/-! ## Rendered reports -/

theorem diagnosticText_oneLine {line : Int} {location message : String} :
    OneLine (diagnosticText line location message) ↔ OneLine location ∧ OneLine message := by
  have number := oneLine_intToString line
  have parts : OneLine "[line " ∧ OneLine "] Error" ∧ OneLine ": " := by decide
  simp only [diagnosticText, oneLine_append, number, parts, true_and, and_true]

/-- The place of a scanned token is named on one line, unless it is a string that goes on over a line end. -/
theorem location_oneLine {source : String} {t : Token} (member : t ∈ (scan source).tokens) :
    OneLine t.location ↔ t.kind = .string → OneLine t.lexeme := by
  by_cases string : t.kind = .string
  · simp [OneLine, Token.location, string]
  · have single := scan_oneLine member string
    by_cases ended : t.kind = .endOfInput
    · simp [OneLine, Token.location, ended]
    · simpa [OneLine, Token.location, ended, string] using single

end Lox
