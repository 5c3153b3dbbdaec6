import Lox.Proofs.Scope.Subjects
import Lox.Scan

/-!
# The spelling of scanned tokens

A keyword is scanned only from its own text, and an identifier is no reserved word. All other tokens
have kinds of their own, which say nothing about the implicit names.
-/

namespace Lox

theorem TokenKind.ofWord_eq {word : String} {kind : TokenKind} (equal : ofWord word = kind)
    (reserved : kind ≠ identifier) : (word, kind) ∈ reservedWords := by
  unfold ofWord at equal
  cases found : reservedWords.lookup word with
  | none =>
    rw [found] at equal
    exact absurd equal.symm reserved
  | some other =>
    rw [found] at equal
    obtain rfl : other = kind := equal
    obtain ⟨before, after, split, -⟩ := List.lookup_eq_some_iff.1 found
    rw [split]
    exact List.mem_append_right _ List.mem_cons_self

theorem TokenKind.ofWord_spelled (word : String) (literal : Literal) (line : Int) :
    Token.Spelled ⟨ofWord word, word, literal, line⟩ := by
  have thisReserved : ofWord "this" ≠ .identifier := by decide
  have superReserved : ofWord "super" ≠ .identifier := by decide
  refine ⟨fun identifier => ⟨?_, ?_⟩, fun this => ?_, fun super => ?_⟩
  · rintro rfl
    exact thisReserved identifier
  · rintro rfl
    exact superReserved identifier
  · simpa [reservedWords] using ofWord_eq this (by decide)
  · simpa [reservedWords] using ofWord_eq super (by decide)

/-- A kind of which only words can be. -/
def TokenKind.IsWord (kind : TokenKind) : Prop :=
  kind = .identifier ∨ kind = .kwThis ∨ kind = .kwSuper

theorem Token.spelled_of_not_word {t : Token} (other : ¬ t.kind.IsWord) : t.Spelled :=
  ⟨fun kind => absurd (.inl kind) other, fun kind => absurd (.inr (.inl kind)) other,
    fun kind => absurd (.inr (.inr kind)) other⟩

/-- A token of the content, read from the text, is spelled right on any line. -/
def Content.Spelled (content : Content) (text : List Char) : Prop :=
  ∀ kind literal, content = .token kind literal →
    ∀ line, Token.Spelled ⟨kind, String.ofList text, literal, line⟩

theorem Content.spelled_of_not_word {kind : TokenKind} {literal : Literal} {text : List Char}
    (other : ¬ kind.IsWord) : (Content.token kind literal).Spelled text := by
  rintro _ _ ⟨⟩ line
  exact Token.spelled_of_not_word other

theorem punctuation?_not_word {c : Char} {kind : TokenKind} (found : punctuation? c = some kind) :
    ¬ kind.IsWord := by
  unfold punctuation? at found
  split at found <;> simp_all [TokenKind.IsWord] <;> subst found <;> simp

theorem comparison?_not_word {c : Char} {kinds : TokenKind × TokenKind}
    (found : comparison? c = some kinds) : ¬ kinds.1.IsWord ∧ ¬ kinds.2.IsWord := by
  unfold comparison? at found
  split at found <;> simp_all [TokenKind.IsWord] <;> subst found <;> simp

theorem cutNumber_spelled (cs : List Char) : (cutNumber cs).1.Spelled (cutNumber cs).2.1 := by
  have number : ¬ TokenKind.number.IsWord := by simp [TokenKind.IsWord]
  unfold cutNumber
  dsimp only
  split
  · split <;> exact Content.spelled_of_not_word number
  · exact Content.spelled_of_not_word number

theorem cutString_spelled (line : Nat) (cs : List Char) :
    (cutString line cs).2.1.Spelled (cutString line cs).2.2.1 := by
  unfold cutString
  dsimp only
  split
  · exact Content.spelled_of_not_word (by simp [TokenKind.IsWord])
  · rintro _ _ ⟨⟩

theorem cut_spelled (line : Nat) (c : Char) (cs : List Char) :
    (cut line c cs).2.1.Spelled (cut line c cs).2.2.1 := by
  unfold cut
  split
  · next found => exact Content.spelled_of_not_word (punctuation?_not_word found)
  · next found =>
    obtain ⟨alone, withEqual⟩ := comparison?_not_word found
    split
    · exact Content.spelled_of_not_word withEqual
    · exact Content.spelled_of_not_word alone
  · split
    · split
      · rintro _ _ ⟨⟩
      · exact Content.spelled_of_not_word (by simp [TokenKind.IsWord])
    · split
      · rintro _ _ ⟨⟩
      · split
        · exact cutString_spelled line cs
        · split
          · exact cutNumber_spelled _
          · split
            · rintro _ _ ⟨⟩ line
              exact TokenKind.ofWord_spelled _ _ line
            · rintro _ _ ⟨⟩

theorem segmentsFrom_spelled (fuel line : Nat) (text : List Char) (found : List Segment)
    (spelled : ∀ s ∈ found, s.content.Spelled s.text) :
    ∀ s ∈ segmentsFrom fuel line text found, s.content.Spelled s.text := by
  induction fuel generalizing line text found with
  | zero => exact spelled
  | succ fuel inductionHypothesis =>
    cases text with
    | nil => exact spelled
    | cons c cs =>
      rw [segmentsFrom]
      exact inductionHypothesis _ _ _ (List.forall_mem_cons.2 ⟨cut_spelled line c cs, spelled⟩)

theorem scan_spelled (source : String) : ∀ t ∈ (scan source).tokens, t.Spelled := by
  refine List.forall_mem_append.2 ⟨fun t found => ?_, ?_⟩
  · obtain ⟨segment, member, token⟩ := List.mem_filterMap.1 found
    have spelled : segment.content.Spelled segment.text :=
      segmentsFrom_spelled _ 1 _ [] (by simp) segment (List.mem_reverse.1 member)
    unfold Segment.token? at token
    split at token
    · next kind literal content =>
      obtain rfl := Option.some.inj token
      exact spelled kind literal content _
    · cases token
  · exact List.forall_mem_singleton.2 (Token.spelled_of_not_word (by simp [TokenKind.IsWord, endToken]))

/-- The token that closes the list of a scan is none of those that a parser reads. -/
theorem scan_takeWhile_length (source : String) :
    ((scan source).tokens.takeWhile (·.kind != .endOfInput)).length ≤
      (scan source).tokens.length - 1 := by
  unfold scan
  dsimp only
  rw [List.takeWhile_append]
  split
  · simp [endToken]
  · simpa using (List.takeWhile_sublist _).length_le

end Lox
