import Lox.Proofs.Text.LongestMatch

/-!
# Lines

The line of an offset is fixed by the text before it: one more than the number of its line ends. The
scanner keeps a count instead, which goes on at a line end between lexemes and at each one inside a string,
and which a comment leaves as it is. After every lexeme it is ahead by the line ends of that lexeme
(`cut_line`), so that the two agree at every token and every fault (`scan_lines`).
-/

namespace Lox

/-- The line on which the character at an offset of a text stands. -/
def lineAt (source : List Char) (offset : Nat) : Nat := 1 + lineEnds (source.take offset)

theorem lineAt_append (before text : List Char) :
    lineAt (before ++ text) before.length = 1 + lineEnds before := by
  rw [lineAt, List.take_left]

theorem lineAt_mono (source : List Char) {offset offset' : Nat} (le : offset ≤ offset') :
    lineAt source offset ≤ lineAt source offset' :=
  Nat.add_le_add_left ((List.take_sublist_take_left le).count_le '\n') 1

/-- A segment, and the offset of the source just after its last character. -/
structure Piece where
  content : Content
  text : List Char
  stop : Nat

/--
From the offset on, the source falls into the pieces. Each starts where the one before it ends, and the
last one ends with the source.
-/
inductive Divided (source : List Char) : (offset : Nat) → List Piece → Prop where
  | nil : Divided source source.length []
  | cons {offset : Nat} {content : Content} {text rest : List Char} {others : List Piece}
      (front : source.drop offset = text ++ rest) (here : IsSegment content text rest)
      (more : Divided source (offset + text.length) others) :
      Divided source offset (⟨content, text, offset + text.length⟩ :: others)

/-- The token that a piece of the source gives: its line is that of the offset after it. -/
def Piece.token? (source : List Char) (p : Piece) : Option Token :=
  match p.content with
  | .token kind literal => some ⟨kind, String.ofList p.text, literal, lineAt source p.stop⟩
  | _ => none

/--
The fault that a piece of the source reports. An unexpected character is reported on its own line, a
string without an end on the last line of the source.
-/
def Piece.error? (source : List Char) (p : Piece) : Option ScanError :=
  match p.content with
  | .unexpected => some ⟨.unexpectedCharacter, lineAt source (p.stop - 1)⟩
  | .unterminated => some ⟨.unterminatedString, lineAt source source.length⟩
  | _ => none

/-! ## The count of the scanner -/

/-- A line end is a blank, so that it is expected everywhere. -/
theorem IsSegment.unexpected_text {text rest : List Char}
    (segment : IsSegment .unexpected text rest) : ∃ c, text = [c] ∧ c ≠ '\n' := by
  cases segment with
  | lexeme lexeme => nomatch lexeme
  | @unexpected c _ _ none =>
    refine ⟨c, rfl, ?_⟩
    rintro rfl
    exact none _ _ (.blank (by decide)) (List.prefix_append ['\n'] rest)

theorem IsSegment.unterminated_rest {text rest : List Char}
    (segment : IsSegment .unterminated text rest) : rest = [] := by
  cases segment with
  | lexeme lexeme => nomatch lexeme
  | unterminated => rfl

section

variable {before text rest : List Char}

theorem lineAt_stop (before text rest : List Char) :
    lineAt (before ++ (text ++ rest)) (before.length + text.length) =
      1 + lineEnds before + lineEnds text := by
  rw [← List.append_assoc, ← List.length_append, lineAt_append, lineEnds_append, Nat.add_assoc]

theorem token?_eq {content : Content} :
    Piece.token? (before ++ (text ++ rest)) ⟨content, text, before.length + text.length⟩ =
      Segment.token? ⟨content, text, 1 + lineEnds before + lineEnds text⟩ := by
  cases content <;> simp only [Piece.token?, Segment.token?, lineAt_stop]

theorem error?_eq {content : Content} (here : IsSegment content text rest) :
    Piece.error? (before ++ (text ++ rest)) ⟨content, text, before.length + text.length⟩ =
      Segment.error? ⟨content, text, 1 + lineEnds before + lineEnds text⟩ := by
  cases content with
  | token kind literal => rfl
  | layout => rfl
  | unexpected =>
    obtain ⟨c, rfl, noLineEnd⟩ := here.unexpected_text
    have same : lineEnds [c] = 0 := List.count_eq_zero_of_not_mem (by simpa using noLineEnd.symm)
    simp [Piece.error?, Segment.error?, lineAt_append, same]
  | unterminated =>
    obtain rfl := here.unterminated_rest
    have last := lineAt_stop before text []
    simp only [List.append_nil] at last
    simp [Piece.error?, Segment.error?, last]

end

/-- The pieces of a text that starts on the line after `before`: the count of the scanner is exact. -/
theorem Partition.divided {line : Nat} {text : List Char} {found : List Segment}
    (partition : Partition line text found) (before : List Char)
    (exact : line = 1 + lineEnds before) :
    ∃ pieces, Divided (before ++ text) before.length pieces ∧
      found.filterMap Segment.token? = pieces.filterMap (Piece.token? (before ++ text)) ∧
      found.filterMap Segment.error? = pieces.filterMap (Piece.error? (before ++ text)) := by
  induction partition generalizing before with
  | nil =>
    refine ⟨[], ?_, rfl, rfl⟩
    have divided : Divided before before.length [] := .nil
    simpa using divided
  | @cons line content text rest others here _ inductionHypothesis =>
    subst exact
    -- The next piece starts behind all line ends before it and within it.
    obtain ⟨pieces, divided, tokens, errors⟩ := inductionHypothesis (before ++ text)
      (by rw [lineEnds_append, Nat.add_assoc])
    rw [List.length_append, List.append_assoc] at divided
    rw [List.append_assoc] at tokens errors
    refine ⟨⟨content, text, before.length + text.length⟩ :: pieces,
      .cons (by rw [List.drop_left]) here divided, ?_, ?_⟩
    · rw [List.filterMap_cons, List.filterMap_cons, tokens, token?_eq]
    · rw [List.filterMap_cons, List.filterMap_cons, errors, error?_eq here]

/-! ## The order of the lines -/

/-- The pieces from an offset on end after it, in order, and inside the source. -/
theorem Divided.stops {source : List Char} {offset : Nat} {pieces : List Piece}
    (divided : Divided source offset pieces) :
    offset ≤ source.length ∧ (∀ p ∈ pieces, offset ≤ p.stop ∧ p.stop ≤ source.length) ∧
      pieces.Pairwise (fun p p' => p.stop ≤ p'.stop) := by
  induction divided with
  | nil => exact ⟨Nat.le_refl _, by simp, .nil⟩
  | @cons offset content text rest others _ _ _ inductionHypothesis =>
    obtain ⟨inside, each, ordered⟩ := inductionHypothesis
    refine ⟨by omega, ?_, .cons (fun p member => (each p member).1) ordered⟩
    intro p member
    rcases List.mem_cons.1 member with rfl | member
    · exact ⟨Nat.le_add_right _ _, inside⟩
    · have bounds := each p member
      omega

theorem Piece.line_of_token? {source : List Char} {p : Piece} {t : Token}
    (gives : p.token? source = some t) : t.line = lineAt source p.stop := by
  unfold Piece.token? at gives
  split at gives
  · obtain rfl := Option.some.inj gives
    rfl
  · cases gives

theorem Divided.ordered {source : List Char} {pieces : List Piece}
    (divided : Divided source 0 pieces) :
    ((pieces.filterMap (Piece.token? source) ++
      [endToken (lineAt source source.length : Nat)]).map Token.line).Pairwise (· ≤ ·) := by
  obtain ⟨-, each, ordered⟩ := divided.stops
  rw [List.pairwise_map, List.pairwise_append]
  refine ⟨?_, List.pairwise_singleton _ _, ?_⟩
  · rw [List.pairwise_filterMap]
    refine ordered.imp fun le t gives t' gives' => ?_
    rw [Piece.line_of_token? gives, Piece.line_of_token? gives']
    exact Int.ofNat_le.2 (lineAt_mono source le)
  · intro t member last isLast
    obtain ⟨p, here, gives⟩ := List.mem_filterMap.1 member
    obtain rfl := List.mem_singleton.1 isLast
    rw [Piece.line_of_token? gives]
    exact Int.ofNat_le.2 (lineAt_mono source (each p here).2)

/--
Lines are exact. The source falls into pieces, one after the other, and the tokens and the faults are
those of the pieces, on the lines that the text before them gives: for a token, the text up to its end;
for an unexpected character, the text before it; for an open string and the end of the input, the whole
source. So the lines of the tokens never go back.
-/
theorem scan_lines (source : String) :
    (∃ pieces, Divided source.toList 0 pieces ∧
      (scan source).tokens = pieces.filterMap (Piece.token? source.toList) ++
        [endToken (lineAt source.toList source.toList.length : Nat)] ∧
      (scan source).errors = pieces.filterMap (Piece.error? source.toList)) ∧
    ((scan source).tokens.map Token.line).Pairwise (· ≤ ·) := by
  have partition := (segments_cuts source.toList).partition
  obtain ⟨pieces, divided, tokens, errors⟩ := partition.divided [] rfl
  have last : 1 + lineEnds source.toList = lineAt source.toList source.toList.length := by
    rw [lineAt, List.take_length]
  have whole : (scan source).tokens = pieces.filterMap (Piece.token? source.toList) ++
      [endToken (lineAt source.toList source.toList.length : Nat)] := by
    rw [scan_tokens, textTokens, tokens, last, List.nil_append]
  refine ⟨⟨pieces, divided, whole, errors⟩, ?_⟩
  rw [whole]
  exact divided.ordered

/-- A string counts the line ends inside it, and the comment after it leaves its own to the next line. -/
example : ((scan "\"a\nb\" // c\r\n$ d\n\"").tokens.map Token.line,
    (scan "\"a\nb\" // c\r\n$ d\n\"").errors.map ScanError.line) = ([2, 3, 4], [3, 4]) := by
  rfl

end Lox
