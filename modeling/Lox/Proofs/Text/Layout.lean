import Lox.Proofs.Text.LongestMatch

/-!
# Layout

How tokens are laid out does not matter to the scanner. Set out with blanks and comments between them, the
tokens of a text are read again as what they were, whatever faults stood between them in the text
(`scan_setOut`). The reason is that no lexeme of a token goes on over a blank.
-/

namespace Lox

/-! ## Texts that are set out -/

/-- Blanks and comments. A comment has the end of its line with it. -/
inductive IsLayout : List Char → Prop where
  | nil : IsLayout []
  | blank {c : Char} {rest : List Char} (blank : isBlank c = true) (more : IsLayout rest) :
      IsLayout (c :: rest)
  | comment {body rest : List Char} (line : '\n' ∉ body) (more : IsLayout rest) :
      IsLayout ('/' :: '/' :: body ++ '\n' :: rest)

/-- Layout that may stand between two tokens: it begins with a blank. -/
structure IsSeparator (text : List Char) : Prop where
  layout : IsLayout text
  blank : ∃ c ∈ text.head?, isBlank c = true

/-- The text is the lexemes in their order, with a separator between each two of them. -/
inductive SetOut : List String → List Char → Prop where
  | nothing : SetOut [] []
  | last (lexeme : String) : SetOut [lexeme] lexeme.toList
  | more {separator text : List Char} (lexeme : String) {next : String} {others : List String}
      (apart : IsSeparator separator) (rest : SetOut (next :: others) text) :
      SetOut (lexeme :: next :: others) (lexeme.toList ++ (separator ++ text))

/-- What a token is, apart from its line. -/
def Token.reading (t : Token) : TokenKind × String × Literal := (t.kind, t.lexeme, t.literal)

/-! ## Lexemes before blanks -/

theorem isBlank_not_part {c : Char} (blank : isBlank c = true) :
    isDigit c = false ∧ isWordPart c = false ∧ c ≠ '.' ∧ c ≠ '=' ∧ c ≠ '/' := by
  simp only [isBlank, Bool.or_eq_true, beq_iff_eq] at blank
  rcases blank with ((rfl | rfl) | rfl) | rfl <;> decide

/-- Nothing follows, or a blank. -/
def StartsBlank (tail : List Char) : Prop := ∀ c ∈ tail.head?, isBlank c = true

theorem IsSeparator.startsBlank {separator : List Char} (apart : IsSeparator separator)
    (text : List Char) : StartsBlank (separator ++ text) := by
  obtain ⟨c, first, blank⟩ := apart.blank
  obtain ⟨rest, rfl⟩ := List.head?_eq_some_iff.1 first
  rintro _ ⟨⟩
  exact blank

/-- What is taken off the front ends where the tail begins. -/
theorem takeWhile_dropWhile_of_all {p : Char → Bool} {text tail : List Char}
    (all : ∀ c ∈ text, p c = true) (stops : ∀ c ∈ tail.head?, p c = false) :
    (text ++ tail).takeWhile p = text ∧ (text ++ tail).dropWhile p = tail := by
  rw [List.takeWhile_append_of_pos all, List.dropWhile_append_of_pos all]
  cases tail with
  | nil => simp
  | cons c rest =>
    have stop := stops c rfl
    simp [stop]

/-- Nothing follows, or a character that continues no number. -/
def EndsNumber (tail : List Char) : Prop := ∀ c ∈ tail.head?, isDigit c = false ∧ c ≠ '.'

theorem StartsBlank.endsNumber {tail : List Char} (blank : StartsBlank tail) : EndsNumber tail :=
  fun c first =>
    let part := isBlank_not_part (blank c first)
    ⟨part.1, part.2.2.1⟩

theorem cutNumber_of_ends {digits tail : List Char} (numeral : IsNumeral digits)
    (ends : EndsNumber tail) :
    cutNumber (digits ++ tail) =
      (.token .number (.number (numberValue digits [])), digits, tail) := by
  have taken := takeWhile_dropWhile_of_all numeral.2 fun c first => (ends c first).1
  simp only [cutNumber, List.span_eq_takeWhile_dropWhile, taken]
  -- no point follows, so that there is no fraction
  split
  · exact absurd rfl (ends '.' rfl).2
  · rfl

theorem cutNumber_fraction_of_ends {digits decimals tail : List Char}
    (numeral : IsNumeral digits) (fraction : IsNumeral decimals) (ends : EndsNumber tail) :
    cutNumber (digits ++ '.' :: decimals ++ tail) =
      (.token .number (.number (numberValue digits decimals)), digits ++ '.' :: decimals, tail) := by
  obtain ⟨nonempty, decimal⟩ := fraction
  obtain ⟨d, ds, rfl⟩ := List.exists_cons_of_ne_nil nonempty
  have point : ∀ c ∈ ('.' :: d :: ds ++ tail).head?, isDigit c = false := by
    rintro _ ⟨⟩
    decide
  have whole := takeWhile_dropWhile_of_all numeral.2 point
  have taken := takeWhile_dropWhile_of_all decimal fun c first => (ends c first).1
  simp only [List.cons_append] at whole taken
  simp [cutNumber, List.span_eq_takeWhile_dropWhile, whole, taken, decimal d List.mem_cons_self]

/-- A number is cut off as it is, unless what follows continues it. -/
theorem Lexeme.cut_number {value : Number.Double} {text tail : List Char}
    (lexeme : Lexeme (.token .number (.number value)) text) (ends : EndsNumber tail) (line : Nat) :
    ∃ c cs, text = c :: cs ∧
      (cut line c (cs ++ tail)).2 = (.token .number (.number value), text, tail) := by
  cases lexeme with
  | whole numeral =>
    obtain ⟨c, cs, rfl⟩ := List.exists_cons_of_ne_nil numeral.1
    refine ⟨c, cs, rfl, ?_⟩
    rw [cut_digit (numeral.2 c List.mem_cons_self)]
    exact cutNumber_of_ends numeral ends
  | @fraction digits decimals numeral fraction =>
    obtain ⟨c, cs, rfl⟩ := List.exists_cons_of_ne_nil numeral.1
    refine ⟨c, cs ++ '.' :: decimals, rfl, ?_⟩
    rw [cut_digit (numeral.2 c List.mem_cons_self)]
    exact cutNumber_fraction_of_ends numeral fraction ends

theorem cut_word_before_blank {text tail : List Char} (word : IsWord text)
    (blank : StartsBlank tail) (line : Nat) :
    ∃ c cs, text = c :: cs ∧
      (cut line c (cs ++ tail)).2 = (.token (.ofWord (String.ofList text)) .nil, text, tail) := by
  obtain ⟨c, cs, rfl, letter, parts⟩ := word
  have all : ∀ d ∈ c :: cs, isWordPart d = true := by
    simpa [isWordPart, letter] using parts
  have ends := takeWhile_dropWhile_of_all all fun c first => (isBlank_not_part (blank c first)).2.1
  simp only [List.cons_append] at ends
  exact ⟨c, cs, rfl, by rw [cut_letter letter, ends.1, ends.2]⟩

/-- The lexeme of a token is cut off as it is, if nothing follows it or a blank. -/
theorem Lexeme.cut_before_blank {kind : TokenKind} {literal : Literal} {text tail : List Char}
    (lexeme : Lexeme (.token kind literal) text) (blank : StartsBlank tail) (line : Nat) :
    ∃ c cs, text = c :: cs ∧ (cut line c (cs ++ tail)).2 = (.token kind literal, text, tail) := by
  have noSlash : tail.head? ≠ some '/' := fun slash =>
    (isBlank_not_part (blank _ slash)).2.2.2.2 rfl
  have noEqual : tail.head? ≠ some '=' := fun equal =>
    (isBlank_not_part (blank _ equal)).2.2.2.1 rfl
  -- No lexeme goes on with a blank, which is no slash, equality sign or part of a word or number.
  cases lexeme with
  | punctuation mark =>
    exact ⟨_, [], rfl, congrArg Prod.snd (cut_punctuation mark tail)⟩
  | slash => exact ⟨'/', [], rfl, congrArg Prod.snd (cut_slash noSlash)⟩
  | operator mark => exact ⟨_, [], rfl, congrArg Prod.snd (cut_operator mark noEqual)⟩
  | operatorEqual mark =>
    exact ⟨_, ['='], rfl, congrArg Prod.snd (cut_operatorEqual mark tail)⟩
  | whole numeral => exact (Lexeme.whole numeral).cut_number blank.endsNumber line
  | fraction numeral decimal =>
    exact (Lexeme.fraction numeral decimal).cut_number blank.endsNumber line
  | @string body plain =>
    refine ⟨'"', body ++ ['"'], rfl, ?_⟩
    rw [cut_quote, List.append_assoc, List.singleton_append, cutString_closed plain]
  | reserved word listed =>
    rw [← ofWord_of_listed listed]
    exact cut_word_before_blank word blank line
  | identifier word free =>
    rw [← ofWord_of_not_listed free]
    exact cut_word_before_blank word blank line

/-! ## Cutting texts that are set out -/

/-- What is cut off a text is its first segment. -/
theorem Cuts.of_cut {content : Content} {line : Nat} {c : Char} {cs text tail : List Char}
    {others : List Segment} (found : (cut line c cs).2 = (content, text, tail))
    (rest : Cuts (line + lineEnds text) tail others) :
    Cuts line (c :: cs) (⟨content, text, line + lineEnds text⟩ :: others) := by
  have cuts := @Cuts.cons line c cs others
  rw [cut_line, found] at cuts
  exact cuts rest

/-- A lexeme is the first segment of a text that begins with it. -/
theorem Cuts.lexeme {kind : TokenKind} {literal : Literal} {line : Nat} {text tail : List Char}
    {others : List Segment} (lexeme : Lexeme (.token kind literal) text)
    (blank : StartsBlank tail) (rest : Cuts (line + lineEnds text) tail others) :
    Cuts line (text ++ tail) (⟨.token kind literal, text, line + lineEnds text⟩ :: others) := by
  obtain ⟨c, cs, rfl, found⟩ := lexeme.cut_before_blank blank line
  exact Cuts.of_cut found rest

/-- Layout is cut into segments of layout, whatever follows it. -/
theorem IsLayout.cuts {text : List Char} (layout : IsLayout text) {line : Nat} {tail : List Char}
    {others : List Segment} (rest : Cuts (line + lineEnds text) tail others) :
    ∃ found, Cuts line (text ++ tail) (found ++ others) ∧ ∀ s ∈ found, s.content = .layout := by
  induction layout generalizing line with
  | nil => exact ⟨[], rest, by simp⟩
  | @blank c text blank _ inductionHypothesis =>
    have below : line + lineEnds (c :: text) = line + lineEnds [c] + lineEnds text := by
      rw [Nat.add_assoc, ← lineEnds_append, List.singleton_append]
    rw [below] at rest
    obtain ⟨found, cuts, silent⟩ := inductionHypothesis rest
    exact ⟨_ :: found, .of_cut (cut_blank blank _) cuts, List.forall_mem_cons.2 ⟨rfl, silent⟩⟩
  | @comment body text lineFree _ inductionHypothesis =>
    have all : ∀ c ∈ body, (c != '\n') = true := by
      intro c member
      simp only [bne_iff_ne]
      rintro rfl
      exact lineFree member
    have ends := @takeWhile_dropWhile_of_all _ body ('\n' :: (text ++ tail)) all (by simp)
    have noEnds : lineEnds ('/' :: '/' :: body) = 0 := by
      simp [lineEnds, List.count_eq_zero, lineFree]
    -- the comment is a segment, and the end of its line is another one
    have below : line + lineEnds ('/' :: '/' :: body ++ '\n' :: text) =
        line + 1 + lineEnds text := by
      have oneEnd : lineEnds ('\n' :: text) = lineEnds text + 1 := List.count_cons_self
      rw [lineEnds_append ('/' :: '/' :: body), noEnds, oneEnd]
      omega
    rw [below] at rest
    obtain ⟨found, cuts, silent⟩ := inductionHypothesis rest
    have first := @Cuts.cons line '/' ('/' :: (body ++ '\n' :: (text ++ tail)))
    rw [cut_comment, ends.1, ends.2] at first
    have whole : '/' :: '/' :: body ++ '\n' :: text ++ tail =
        '/' :: '/' :: (body ++ '\n' :: (text ++ tail)) := by simp
    rw [whole]
    exact ⟨_ :: _ :: found, first cuts.lineEnd, by simpa using silent⟩

theorem Segment.token?_of_layout {s : Segment} (layout : s.content = .layout) : s.token? = none := by
  simp [Segment.token?, layout]

theorem Segment.error?_of_layout {s : Segment} (layout : s.content = .layout) : s.error? = none := by
  simp [Segment.error?, layout]

/-- The token is what a text that consists of its lexeme is read as. -/
def Token.Scannable (t : Token) : Prop := Lexeme (.token t.kind t.literal) t.lexeme.toList

/-- A text in which tokens are set out is cut into these tokens, without a fault. -/
theorem SetOut.cuts {ts : List Token} (scannable : ∀ t ∈ ts, t.Scannable) {text : List Char}
    (setOut : SetOut (ts.map Token.lexeme) text) (line : Nat) :
    ∃ found, Cuts line text found ∧
      (found.filterMap Segment.token?).map Token.reading = ts.map Token.reading ∧
      found.filterMap Segment.error? = [] := by
  induction ts generalizing text line with
  | nil =>
    cases setOut
    exact ⟨[], .nil line, rfl, rfl⟩
  | cons t ts inductionHypothesis =>
    obtain ⟨lexeme, others⟩ := List.forall_mem_cons.1 scannable
    have reads : ∀ line, Segment.token? ⟨.token t.kind t.literal, t.lexeme.toList, line⟩ =
        some ⟨t.kind, t.lexeme, t.literal, line⟩ := by simp [Segment.token?]
    -- The last token has nothing behind it; any other one is set apart from the next by layout.
    cases ts with
    | nil =>
      cases setOut
      have cuts := Cuts.lexeme lexeme (by rintro _ ⟨⟩)
        (Cuts.nil (line + lineEnds t.lexeme.toList))
      rw [List.append_nil] at cuts
      exact ⟨_, cuts, by simp [reads, Token.reading], rfl⟩
    | cons next ts =>
      cases setOut with
      | @more separator rest _ _ _ apart spaced =>
        obtain ⟨found, cuts, same, faultless⟩ := inductionHypothesis others spaced
          (line + lineEnds t.lexeme.toList + lineEnds separator)
        obtain ⟨between, spacedCuts, silent⟩ := apart.layout.cuts cuts
        have noTokens : between.filterMap Segment.token? = [] :=
          List.filterMap_eq_nil_iff.2 fun s here => Segment.token?_of_layout (silent s here)
        have noErrors : between.filterMap Segment.error? = [] :=
          List.filterMap_eq_nil_iff.2 fun s here => Segment.error?_of_layout (silent s here)
        refine ⟨_, Cuts.lexeme lexeme (apart.startsBlank rest) spacedCuts, ?_, ?_⟩
        · rw [List.filterMap_cons_some (reads _), List.filterMap_append, noTokens, List.nil_append,
            List.map_cons, same]
          rfl
        · rw [List.filterMap_cons_none rfl, List.filterMap_append, noErrors, faultless]
          rfl

/-! ## The tokens of a text -/

/-- What is read as a token is a lexeme of its kind. -/
theorem Cuts.scannable {line : Nat} {text : List Char} {found : List Segment}
    (cuts : Cuts line text found) : ∀ t ∈ found.filterMap Segment.token?, t.Scannable := by
  induction cuts with
  | nil => simp
  | @cons line c cs others _ inductionHypothesis =>
    intro t member
    obtain ⟨s, here, token⟩ := List.mem_filterMap.1 member
    obtain rfl | here := List.mem_cons.1 here
    · have isCut := cut_isCut line c cs
      generalize cut line c cs = found at isCut token
      obtain ⟨line', content, text, rest⟩ := found
      cases content with
      | token kind literal =>
        obtain rfl := Option.some.inj token
        -- a fault gives no token, so a lexeme was cut off
        obtain lexeme | ⟨-, other⟩ | ⟨-, -, other⟩ := isCut
        · simpa [Token.Scannable] using lexeme
        · cases other
        · cases other
      | layout | unexpected | unterminated => cases token
    · exact inductionHypothesis t (List.mem_filterMap.2 ⟨s, here, token⟩)

/--
Any text in which the tokens of a source text are set out, with blanks and comments between them, is
read without error as the same tokens, and the end of the input after them. Faults of the source text
have no part in it.
-/
theorem scan_setOut (source text : String)
    (setOut : SetOut ((textTokens source).map Token.lexeme) text.toList) :
    (scan text).errors = [] ∧
      (scan text).tokens.map Token.reading =
        (textTokens source).map Token.reading ++ [(.endOfInput, "", .nil)] ∧
      (scan text).tokens.map Token.reading = (scan source).tokens.map Token.reading := by
  have scannable := (segments_cuts source.toList).scannable
  obtain ⟨found, cuts, same, faultless⟩ := setOut.cuts scannable 1
  have unique : segments text.toList = found := (segments_cuts text.toList).unique cuts
  have read : (scan text).tokens.map Token.reading =
      (textTokens source).map Token.reading ++ [(.endOfInput, "", .nil)] := by
    rw [scan_tokens, List.map_append, textTokens, unique, same]
    rfl
  refine ⟨by rw [scan, unique]; exact faultless, read, ?_⟩
  rw [read, scan_tokens, List.map_append]
  rfl

/-- Among the tokens there are a character that is unexpected, a comment and a string without an end. -/
def scattered : String := "x@==1.5.y/\"a // b\nc\"// d\n\"open"

/-- The tokens of the scattered text, with a comment between two of them. -/
def gathered : String := "x == 1.5 // e\n\t//\n. y\r/ \"a // b\nc\""

theorem scan_setOut_gathered :
    SetOut ((textTokens scattered).map Token.lexeme) gathered.toList ∧
      (scan scattered).errors.length = 2 ∧ (scan gathered).errors = [] ∧
      (scan gathered).tokens.map Token.reading = (scan scattered).tokens.map Token.reading := by
  have lexemes : (textTokens scattered).map Token.lexeme =
      ["x", "==", "1.5", ".", "y", "/", "\"a // b\nc\""] := by decide +kernel
  have blank : ∀ c, isBlank c = true → IsSeparator [c] := fun c blank =>
    ⟨.blank blank .nil, c, rfl, blank⟩
  have comments : IsSeparator " // e\n\t//\n".toList :=
    ⟨.blank (by decide) (@IsLayout.comment " e".toList _ (by decide)
      (.blank (by decide) (@IsLayout.comment [] _ (by decide) .nil))), ' ', rfl, by decide⟩
  have setOut : SetOut ((textTokens scattered).map Token.lexeme) gathered.toList := by
    rw [lexemes]
    exact .more "x" (blank ' ' rfl) (.more "==" (blank ' ' rfl) (.more "1.5" comments
      (.more "." (blank ' ' rfl) (.more "y" (blank '\r' rfl) (.more "/" (blank ' ' rfl)
        (.last "\"a // b\nc\""))))))
  obtain ⟨faultless, -, same⟩ := scan_setOut scattered gathered setOut
  exact ⟨setOut, by decide +kernel, faultless, same⟩

end Lox
