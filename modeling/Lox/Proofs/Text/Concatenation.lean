import Lox.Scan
import Mathlib.Data.List.TakeDrop

/-!
# Scanning two texts as one

Between the two texts stands a line end. No lexeme of the first text goes on after it, unless it is a
string that is never closed. So the second text gives the same tokens as alone, on later lines.
-/

namespace Lox

/-- The number of line ends in a text. -/
def lineEnds (text : List Char) : Nat := text.count '\n'

/-! ## Cutting a lexeme -/

/-- What is taken off the front stays the same if something in the list, or next to it, stops it. -/
theorem takeWhile_dropWhile_append {α : Type} {p : α → Bool} {cs tail : List α}
    (stops : cs.dropWhile p = [] → ∀ c ∈ tail.head?, p c = false) :
    (cs ++ tail).takeWhile p = cs.takeWhile p ∧
      (cs ++ tail).dropWhile p = cs.dropWhile p ++ tail := by
  induction cs with
  | nil =>
    cases tail with
    | nil => exact ⟨rfl, rfl⟩
    | cons c rest =>
      have stop := stops rfl c rfl
      simp [stop]
  | cons c rest inductionHypothesis =>
    cases here : p c with
    | false => simp [here]
    | true =>
      simp only [List.dropWhile_cons, here, if_true] at stops
      simpa [here] using inductionHypothesis stops

@[simp] theorem lineEnds_nil : lineEnds [] = 0 := rfl

theorem lineEnds_cons_of_ne {c : Char} (other : c ≠ '\n') (text : List Char) :
    lineEnds (c :: text) = lineEnds text := List.count_cons_of_ne other

theorem lineEnds_append (text text' : List Char) :
    lineEnds (text ++ text') = lineEnds text + lineEnds text' := List.count_append

/-- What is taken off the front has no line end, if that stops it. -/
theorem lineEnds_takeWhile {p : Char → Bool} (stops : p '\n' = false) (cs : List Char) :
    lineEnds (cs.takeWhile p) = 0 := by
  induction cs with
  | nil => rfl
  | cons c cs inductionHypothesis =>
    cases here : p c with
    | false => simp [here]
    | true =>
      have other : c ≠ '\n' := by
        rintro rfl
        simp [here] at stops
      rw [List.takeWhile_cons_of_pos here, lineEnds_cons_of_ne other, inductionHypothesis]

/-- What was cut off a text, with a further text behind. -/
def extend (found : Nat × Content × List Char × List Char) (tail : List Char) :
    Nat × Content × List Char × List Char :=
  (found.1, found.2.1, found.2.2.1, found.2.2.2 ++ tail)

theorem cutNumber_append (cs tail : List Char) :
    cutNumber (cs ++ '\n' :: tail) =
      ((cutNumber cs).1, (cutNumber cs).2.1, (cutNumber cs).2.2 ++ '\n' :: tail) := by
  have noDigit : isDigit '\n' = false := by decide
  have digits : ∀ ds : List Char, (ds ++ '\n' :: tail).takeWhile isDigit = ds.takeWhile isDigit ∧
      (ds ++ '\n' :: tail).dropWhile isDigit = ds.dropWhile isDigit ++ '\n' :: tail :=
    fun ds => takeWhile_dropWhile_append (by simp [noDigit])
  simp only [cutNumber, List.span_eq_takeWhile_dropWhile, digits]
  rcases cs.dropWhile isDigit with _ | ⟨point, _ | ⟨d, rest⟩⟩
  · simp
  · by_cases isPoint : point = '.'
    · simp [isPoint, noDigit]
    · simp [isPoint]
  · by_cases isPoint : point = '.'
    · have more := digits (d :: rest)
      simp only [List.cons_append] at more
      cases digit : isDigit d <;> simp [isPoint, digit, more]
    · simp [isPoint]

/-- A string goes on to its closing quote, and the line is ahead by the line ends inside it. -/
theorem stringFrom_eq (line : Nat) (body cs : List Char) :
    stringFrom line body cs = (line + lineEnds (cs.takeWhile (· != '"')),
      body.reverse ++ cs.takeWhile (· != '"'), cs.dropWhile (· != '"')) := by
  induction cs generalizing line body with
  | nil => simp [stringFrom, lineEnds]
  | cons c cs inductionHypothesis =>
    by_cases quote : c = '"'
    · simp [stringFrom, quote, lineEnds]
    · have passed : stringFrom line body (c :: cs) =
          stringFrom (line + lineEnds [c]) (c :: body) cs := by
        by_cases lineEnd : c = '\n' <;> simp [stringFrom, quote, lineEnd, lineEnds]
      rw [passed, inductionHypothesis, List.takeWhile_cons_of_pos (by simpa using quote),
        List.dropWhile_cons_of_pos (by simpa using quote), Nat.add_assoc, ← lineEnds_append,
        List.reverse_cons, List.append_assoc, List.singleton_append]

theorem cutString_append {line : Nat} {cs : List Char}
    (closed : (cutString line cs).2.1 ≠ .unterminated) (tail : List Char) :
    cutString line (cs ++ tail) = extend (cutString line cs) tail := by
  simp only [cutString, stringFrom_eq] at closed ⊢
  cases quoted : cs.dropWhile (· != '"') with
  | nil => simp [quoted] at closed
  | cons quote rest =>
    have same : (cs ++ tail).takeWhile (· != '"') = _ ∧ _ :=
      takeWhile_dropWhile_append (by simp [quoted])
    simp [same, quoted, extend]

/-- No lexeme but an open string goes on after a line end. -/
theorem cut_append {line : Nat} {c : Char} {cs : List Char}
    (closed : (cut line c cs).2.1 ≠ .unterminated) (tail : List Char) :
    cut line c (cs ++ '\n' :: tail) = extend (cut line c cs) ('\n' :: tail) := by
  unfold cut at closed ⊢
  split
  · rfl
  · rcases cs with _ | ⟨d, rest⟩
    · rfl
    · by_cases equal : d = '=' <;> simp [equal, extend]
  · next plain comparison =>
    simp only [plain, comparison] at closed
    -- the classes of first characters, in the order in which they are tried
    by_cases slash : c == '/'
    · simp only [slash, if_true]
      rcases cs with _ | ⟨d, rest⟩
      · simp [extend]
      · have comment : (rest ++ '\n' :: tail).takeWhile (· != '\n') = _ ∧ _ :=
          takeWhile_dropWhile_append (by simp)
        by_cases second : d = '/' <;> simp [second, comment, extend]
    · by_cases blank : isBlank c
      · simp [slash, blank, extend]
      · by_cases quote : c == '"'
        · simp only [slash, blank, quote, if_true, Bool.false_eq_true, if_false] at closed ⊢
          exact cutString_append closed _
        · by_cases digit : isDigit c
          · simp only [slash, blank, quote, digit, if_true, Bool.false_eq_true, if_false]
            have number := cutNumber_append (c :: cs) tail
            rw [List.cons_append] at number
            simp [number, extend]
          · by_cases letter : isLetter c
            · have word : (c :: cs ++ '\n' :: tail).takeWhile isWordPart = _ ∧ _ :=
                takeWhile_dropWhile_append (by simp [show isWordPart '\n' = false by decide])
              rw [List.cons_append] at word
              simp [slash, blank, quote, digit, letter, word, extend,
                List.span_eq_takeWhile_dropWhile]
            · simp [slash, blank, quote, digit, letter, extend]

/-! ### The text of a lexeme -/

theorem cutNumber_text {cs : List Char} {c : Char} {rest : List Char} (text : cs = c :: rest)
    (digit : isDigit c = true) :
    (cutNumber cs).2.1 ++ (cutNumber cs).2.2 = cs ∧ (cutNumber cs).2.1 ≠ [] := by
  have nonempty : cs.takeWhile isDigit ≠ [] := by simp [text, digit]
  have whole := List.takeWhile_append_dropWhile (p := isDigit) (l := cs)
  simp only [cutNumber, List.span_eq_takeWhile_dropWhile]
  rcases after : cs.dropWhile isDigit with _ | ⟨point, _ | ⟨d, others⟩⟩
  · rw [after] at whole
    simpa [nonempty] using whole
  · rw [after] at whole
    by_cases isPoint : point = '.' <;> simpa [isPoint, nonempty] using whole
  · rw [after] at whole
    by_cases isPoint : point = '.'
    · have fraction := List.takeWhile_append_dropWhile (p := isDigit) (l := d :: others)
      cases next : isDigit d <;> simp_all
    · simpa [isPoint, nonempty] using whole

theorem cutString_text (line : Nat) (cs : List Char) :
    (cutString line cs).2.2.1 ++ (cutString line cs).2.2.2 = '"' :: cs ∧
      (cutString line cs).2.2.1 ≠ [] := by
  have whole := List.takeWhile_append_dropWhile (p := (· != '"')) (l := cs)
  simp only [cutString, stringFrom_eq]
  cases after : cs.dropWhile (· != '"') with
  | nil => simp_all
  | cons quote rest => simp_all

/-- The lexeme and the rest are the whole text. -/
theorem cut_text (line : Nat) (c : Char) (cs : List Char) :
    (cut line c cs).2.2.1 ++ (cut line c cs).2.2.2 = c :: cs ∧ (cut line c cs).2.2.1 ≠ [] := by
  unfold cut
  split
  · simp
  · rcases cs with _ | ⟨d, rest⟩
    · simp
    · by_cases equal : d = '=' <;> simp [equal]
  · -- the tests stand in the order in which the scanner makes them
    by_cases slash : c == '/'
    · simp only [slash, if_true]
      obtain rfl := eq_of_beq slash
      rcases cs with _ | ⟨d, rest⟩
      · simp
      · by_cases second : d = '/' <;> simp [second]
    · by_cases blank : isBlank c
      · simp [slash, blank]
      · by_cases quote : c == '"'
        · simp only [slash, blank, quote, if_true, Bool.false_eq_true, if_false]
          rw [eq_of_beq quote]
          exact cutString_text line cs
        · by_cases digit : isDigit c
          · simp only [slash, blank, quote, digit, if_true, Bool.false_eq_true, if_false]
            exact cutNumber_text rfl digit
          · by_cases letter : isLetter c
            · have part : isWordPart c = true := by simp [isWordPart, letter]
              simp [slash, blank, quote, digit, letter, part]
            · simp [slash, blank, quote, digit, letter]

/-! ### The line after a lexeme -/

theorem cutNumber_lineEnds (cs : List Char) : lineEnds (cutNumber cs).2.1 = 0 := by
  have digits := lineEnds_takeWhile (p := isDigit) (by decide)
  simp only [cutNumber, List.span_eq_takeWhile_dropWhile]
  split
  · split
    · rw [lineEnds_append, lineEnds_cons_of_ne (by decide), digits, digits]
    · exact digits cs
  · exact digits cs

theorem cutString_line (line : Nat) (cs : List Char) :
    (cutString line cs).1 = line + lineEnds (cutString line cs).2.2.1 := by
  have quoted := lineEnds_cons_of_ne (show '"' ≠ '\n' by decide)
  simp only [cutString, stringFrom_eq]
  cases after : cs.dropWhile (· != '"') with
  | nil => simp [quoted]
  | cons quote rest =>
    have closing : quote = '"' := by
      have stop := List.head?_dropWhile_not (· != '"') cs
      simpa [after] using stop
    simp [quoted, closing, lineEnds_append]

/--
The count of the scanner is right after each lexeme: it is ahead by the line ends of the lexeme. Those are
counted at a blank and inside a string, and no other lexeme has any.
-/
theorem cut_line (line : Nat) (c : Char) (cs : List Char) :
    (cut line c cs).1 = line + lineEnds (cut line c cs).2.2.1 := by
  unfold cut
  split
  · next mark =>
    have noEnd : c ≠ '\n' := by
      rintro rfl
      cases mark
    simp [lineEnds_cons_of_ne noEnd]
  · next mark =>
    have noEnd : c ≠ '\n' := by
      rintro rfl
      cases mark
    split
    · simp [lineEnds_cons_of_ne noEnd, lineEnds_cons_of_ne]
    · simp [lineEnds_cons_of_ne noEnd]
  · by_cases slash : c = '/'
    · subst slash
      simp only [BEq.rfl, if_true]
      split
      · simp [List.span_eq_takeWhile_dropWhile, lineEnds_cons_of_ne, lineEnds_takeWhile]
      · simp [lineEnds_cons_of_ne]
    · by_cases blank : isBlank c
      · by_cases lineEnd : c = '\n'
        · subst lineEnd
          rfl
        · simp [slash, blank, lineEnd, lineEnds_cons_of_ne]
      · have noEnd : c ≠ '\n' := by
          rintro rfl
          exact blank (by decide)
        by_cases quote : c = '"'
        · subst quote
          exact cutString_line line cs
        · by_cases digit : isDigit c
          · simp [slash, blank, quote, digit, cutNumber_lineEnds]
          · by_cases letter : isLetter c
            · simp [slash, blank, quote, digit, letter, List.span_eq_takeWhile_dropWhile,
                lineEnds_takeWhile (p := isWordPart) (by decide)]
            · simp [slash, blank, quote, digit, letter, lineEnds_cons_of_ne noEnd]

/-- The line makes no difference to what is cut off. -/
theorem cut_elsewhere (line line' : Nat) (c : Char) (cs : List Char) :
    (cut line c cs).2 = (cut line' c cs).2 := by
  have string : (cutString line cs).2 = (cutString line' cs).2 := by
    simp only [cutString, stringFrom_eq]
    cases cs.dropWhile (· != '"') <;> rfl
  unfold cut
  split
  · rfl
  · split <;> rfl
  · split
    · split <;> rfl
    · split
      · rfl
      · split
        · exact string
        · split
          · rfl
          · split <;> rfl

/-! ## Cutting a whole text -/

/-- The text, which starts on the line, is cut into the segments. -/
inductive Cuts : (line : Nat) → List Char → List Segment → Prop where
  | nil (line : Nat) : Cuts line [] []
  | cons {line : Nat} {c : Char} {cs : List Char} {others : List Segment}
      (rest : Cuts (cut line c cs).1 (cut line c cs).2.2.2 others) :
      Cuts line (c :: cs)
        (⟨(cut line c cs).2.1, (cut line c cs).2.2.1, (cut line c cs).1⟩ :: others)

theorem Cuts.unique {line : Nat} {text : List Char} {found found' : List Segment}
    (cuts : Cuts line text found) (cuts' : Cuts line text found') : found = found' := by
  induction cuts generalizing found' with
  | nil =>
    cases cuts'
    rfl
  | cons rest inductionHypothesis =>
    cases cuts' with
    | cons rest' => rw [inductionHypothesis rest']

theorem segmentsFrom_cuts (fuel line : Nat) (text : List Char) (found : List Segment)
    (enough : text.length ≤ fuel) :
    ∃ others, Cuts line text others ∧
      segmentsFrom fuel line text found = others.reverse ++ found := by
  induction fuel generalizing line text found with
  | zero =>
    obtain rfl := List.length_eq_zero_iff.1 (Nat.le_zero.1 enough)
    exact ⟨[], .nil line, rfl⟩
  | succ fuel inductionHypothesis =>
    cases text with
    | nil => exact ⟨[], .nil line, rfl⟩
    | cons c cs =>
      obtain ⟨whole, nonempty⟩ := cut_text line c cs
      have shorter : (cut line c cs).2.2.2.length ≤ fuel := by
        have length := congrArg List.length whole
        have positive := List.length_pos_iff.2 nonempty
        simp only [List.length_append, List.length_cons] at length enough
        omega
      obtain ⟨others, cuts, result⟩ := inductionHypothesis _ _
        (⟨(cut line c cs).2.1, (cut line c cs).2.2.1, (cut line c cs).1⟩ :: found) shorter
      refine ⟨_, .cons cuts, ?_⟩
      rw [segmentsFrom]
      simpa using result

theorem segments_cuts (text : List Char) : Cuts 1 text (segments text) := by
  obtain ⟨others, cuts, result⟩ := segmentsFrom_cuts text.length 1 text [] (Nat.le_refl _)
  rw [segments, result]
  simpa using cuts

/-- The same segment on a later line. -/
def Segment.down (lines : Nat) (s : Segment) : Segment := { s with line := s.line + lines }

theorem cut_down (line lines : Nat) (c : Char) (cs : List Char) :
    cut (line + lines) c cs = ((cut line c cs).1 + lines, (cut line c cs).2) := by
  refine Prod.ext ?_ (cut_elsewhere _ _ c cs)
  rw [cut_line, cut_elsewhere _ line, cut_line line, Nat.add_right_comm]

theorem Cuts.down {line : Nat} {text : List Char} {found : List Segment} (lines : Nat)
    (cuts : Cuts line text found) :
    Cuts (line + lines) text (found.map (Segment.down lines)) := by
  induction cuts with
  | nil => exact .nil _
  | @cons line c cs others rest inductionHypothesis =>
    have cuts := @Cuts.cons (line + lines) c cs (others.map (Segment.down lines))
    rw [cut_down] at cuts
    exact cuts inductionHypothesis

/-- A line end is a segment of its own. -/
theorem Cuts.lineEnd {line : Nat} {text : List Char} {found : List Segment}
    (cuts : Cuts (line + 1) text found) :
    Cuts line ('\n' :: text) (⟨.layout, ['\n'], line + 1⟩ :: found) := .cons cuts

theorem Cuts.append {line : Nat} {text text' : List Char} {found found' : List Segment}
    (cuts : Cuts line text found) (closed : ∀ s ∈ found, s.content ≠ .unterminated)
    (cuts' : Cuts (line + lineEnds text) ('\n' :: text') found') :
    Cuts line (text ++ '\n' :: text') (found ++ found') := by
  induction cuts with
  | nil => exact cuts'
  | @cons line c cs others rest inductionHypothesis =>
    obtain ⟨here, there⟩ := List.forall_mem_cons.1 closed
    have same := cut_append here text'
    rw [← (cut_text line c cs).1, lineEnds_append, ← Nat.add_assoc, ← cut_line] at cuts'
    have more := inductionHypothesis there cuts'
    have cuts : Cuts line (c :: (cs ++ '\n' :: text')) _ := .cons (by rw [same]; exact more)
    rwa [same] at cuts

/-! ## Scanning -/

/-- The tokens of a text without the one that closes them. -/
def textTokens (source : String) : List Token :=
  (segments source.toList).filterMap Segment.token?

/-- After the last segment, the count is ahead by all line ends of the text. -/
theorem Cuts.lastLine {line : Nat} {text : List Char} {found : List Segment}
    (cuts : Cuts line text found) :
    (found.getLast?.map Segment.line).getD line = line + lineEnds text := by
  induction cuts with
  | nil => rfl
  | @cons line c cs others _ inductionHypothesis =>
    rw [← (cut_text line c cs).1, lineEnds_append, ← Nat.add_assoc, ← cut_line,
      ← inductionHypothesis, List.getLast?_cons]
    cases others.getLast? <;> rfl

theorem lastLine_segments (text : List Char) : lastLine (segments text) = 1 + lineEnds text :=
  (segments_cuts text).lastLine

theorem scan_tokens (source : String) : (scan source).tokens =
    textTokens source ++ [endToken (1 + lineEnds source.toList : Nat)] := by
  rw [← lastLine_segments]
  rfl

/-- The same token on a later line. -/
def Token.down (lines : Nat) (t : Token) : Token := { t with line := t.line + lines }

@[simp] theorem Token.down_zero (t : Token) : t.down 0 = t := by
  simp [Token.down]

theorem Segment.token?_down (lines : Nat) (s : Segment) :
    (s.down lines).token? = s.token?.map (Token.down lines) := by
  obtain ⟨content, text, line⟩ := s
  cases content <;> simp [Segment.token?, Segment.down, Token.down]

theorem Segment.error?_down (lines : Nat) {s : Segment} (faultless : s.error? = none) :
    (s.down lines).error? = none := by
  obtain ⟨content, text, line⟩ := s
  cases content <;> simp_all [Segment.error?, Segment.down]

/-- The line ends up to the second text, with the one between the texts. -/
def linesBefore (first : String) : Nat := 1 + lineEnds first.toList

theorem segments_join {first : String} (faultless : (scan first).errors = []) (second : String) :
    segments (first ++ "\n" ++ second).toList = segments first.toList ++
      ⟨.layout, ['\n'], 1 + lineEnds first.toList + 1⟩ ::
        (segments second.toList).map (Segment.down (linesBefore first)) := by
  have closed : ∀ s ∈ segments first.toList, s.content ≠ .unterminated := by
    intro s member unterminated
    have none : s.error? = none := List.filterMap_eq_nil_iff.1 faultless s member
    simp [Segment.error?, unterminated] at none
  have after : 1 + linesBefore first = 1 + lineEnds first.toList + 1 := by
    simp only [linesBefore]
    omega
  have below := (segments_cuts second.toList).down (linesBefore first)
  rw [after] at below
  have joined := (segments_cuts first.toList).append closed below.lineEnd
  have text : (first ++ "\n" ++ second).toList = first.toList ++ '\n' :: second.toList := by simp
  rw [text]
  exact (segments_cuts _).unique joined

theorem textTokens_join {first : String} (faultless : (scan first).errors = []) (second : String) :
    textTokens (first ++ "\n" ++ second) =
      textTokens first ++ (textTokens second).map (Token.down (linesBefore first)) := by
  have layout : Segment.token? ⟨.layout, ['\n'], 1 + lineEnds first.toList + 1⟩ = none := rfl
  simp only [textTokens, segments_join faultless, List.filterMap_append,
    List.filterMap_cons_none layout, List.filterMap_map, List.map_filterMap]
  congr 2
  exact funext fun s => s.token?_down _

theorem scan_join_errors {first second : String} (faultless : (scan first).errors = [])
    (faultless' : (scan second).errors = []) : (scan (first ++ "\n" ++ second)).errors = [] := by
  simp only [scan] at faultless' ⊢
  rw [segments_join faultless, List.filterMap_append]
  have layout : Segment.error? ⟨.layout, ['\n'], 1 + lineEnds first.toList + 1⟩ = none := rfl
  rw [List.filterMap_cons_none layout, List.append_eq_nil_iff]
  refine ⟨faultless, List.filterMap_eq_nil_iff.2 fun s member => ?_⟩
  obtain ⟨above, here, rfl⟩ := List.mem_map.1 member
  exact Segment.error?_down _ (List.filterMap_eq_nil_iff.1 faultless' above here)

/-! ### Kinds -/

theorem ofWord_ne_end (word : String) : TokenKind.ofWord word ≠ .endOfInput := by
  intro equal
  unfold TokenKind.ofWord at equal
  cases found : reservedWords.lookup word with
  | none => simp [found] at equal
  | some kind =>
    obtain ⟨before, after, split, -⟩ := List.lookup_eq_some_iff.1 found
    have member : (word, kind) ∈ reservedWords := by simp [split]
    rw [found] at equal
    obtain rfl : kind = .endOfInput := equal
    simp [reservedWords] at member

theorem punctuation?_ne_end (c : Char) : punctuation? c ≠ some .endOfInput := by
  unfold punctuation?
  split <;> simp

theorem comparison?_ne_end {c : Char} {kinds : TokenKind × TokenKind}
    (found : comparison? c = some kinds) : kinds.1 ≠ .endOfInput ∧ kinds.2 ≠ .endOfInput := by
  unfold comparison? at found
  split at found <;> simp_all <;> subst found <;> simp

theorem cutNumber_kind (cs : List Char) : ∃ literal, (cutNumber cs).1 = .token .number literal := by
  unfold cutNumber
  dsimp only
  split
  · split <;> exact ⟨_, rfl⟩
  · exact ⟨_, rfl⟩

theorem cutString_kind (line : Nat) (cs : List Char) (literal : Literal) :
    (cutString line cs).2.1 ≠ .token .endOfInput literal := by
  unfold cutString
  dsimp only
  split <;> simp

theorem cut_kind (line : Nat) (c : Char) (cs : List Char) (literal : Literal) :
    (cut line c cs).2.1 ≠ .token .endOfInput literal := by
  unfold cut
  split
  · next kind _ found =>
    rintro ⟨⟩
    exact punctuation?_ne_end c found
  · next found =>
    obtain ⟨alone, withEqual⟩ := comparison?_ne_end found
    split <;> simp [alone, withEqual]
  · split
    · split <;> simp
    · split
      · simp
      · split
        · exact cutString_kind line cs literal
        · split
          · obtain ⟨value, number⟩ := cutNumber_kind (c :: cs)
            simp [number]
          · split <;> simp [ofWord_ne_end]

theorem Cuts.kinds {line : Nat} {text : List Char} {found : List Segment}
    (cuts : Cuts line text found) (literal : Literal) :
    ∀ s ∈ found, s.content ≠ .token .endOfInput literal := by
  induction cuts with
  | nil => simp
  | cons rest inductionHypothesis =>
    exact List.forall_mem_cons.2 ⟨cut_kind _ _ _ _, inductionHypothesis⟩

/-- No token that is read from a text closes the input. -/
theorem textTokens_kind (source : String) : ∀ t ∈ textTokens source, t.kind ≠ .endOfInput := by
  intro t member closes
  obtain ⟨s, here, token⟩ := List.mem_filterMap.1 member
  unfold Segment.token? at token
  split at token
  · next kind literal content =>
    obtain rfl := Option.some.inj token
    obtain rfl : kind = .endOfInput := closes
    exact (segments_cuts source.toList).kinds literal s here content
  · cases token

end Lox
