import Mathlib.Data.List.Basic
import TemplateMarkup.Text.Expression

/-!
# Words that an expression mentions

A word is mentioned if it stands somewhere in the text with nothing of a longer word on either side.
What is mentioned is told by two patterns, and a character that belongs to no word parts a text into
two that are searched one after the other.
-/

namespace TemplateMarkup

/-- A part of a pattern: what it goes over, or what it asks of the place it is at. -/
inductive TextPattern where
  /-- The place before the first character. -/
  | textStart
  /-- A place with a word character on one side of it only. -/
  | wordBoundary
  /-- One character of a class. -/
  | oneOf (belongs : Char → Bool)
  | literal (word : List Char)
  | either (first second : TextPattern)
  | andThen (first second : TextPattern)

namespace TextPattern

/-- The pattern goes over some characters between others. -/
def Spans : TextPattern → (before spanned after : List Char) → Prop
  | textStart, before, spanned, _ => spanned = [] ∧ before = []
  | wordBoundary, before, spanned, after =>
      spanned = [] ∧ before.getLast?.any isWordCharacter ≠ after.head?.any isWordCharacter
  | oneOf belongs, _, spanned, _ => ∃ character, spanned = [character] ∧ belongs character
  | literal word, _, spanned, _ => spanned = word
  | either first second, before, spanned, after =>
      first.Spans before spanned after ∨ second.Spans before spanned after
  | andThen first second, before, spanned, after =>
      ∃ front back, spanned = front ++ back ∧ first.Spans before front (back ++ after) ∧
        second.Spans (before ++ front) back after

/-- The pattern goes over some part of a text. -/
def IsFoundIn (pattern : TextPattern) (text : List Char) : Prop :=
  ∃ before spanned after, text = before ++ (spanned ++ after) ∧ pattern.Spans before spanned after

end TextPattern

namespace Expression

/-- The pattern `(?:^|[^\w.])await\b`. -/
def awaitPattern : TextPattern :=
  .andThen (.either .textStart (.oneOf fun before => !isWordCharacter before && before != '.'))
    (.andThen (.literal "await".toList) .wordBoundary)

/-- The pattern `\bprops\b`. -/
def propsPattern : TextPattern :=
  .andThen .wordBoundary (.andThen (.literal "props".toList) .wordBoundary)

/-- The word stands in the text, after a character that may precede it, if any, and before one that is
no word character, if any. -/
def IsMentioned (word : List Char) (mayPrecede : Char → Prop) (text : List Char) : Prop :=
  ∃ before after, text = before ++ (word ++ after) ∧
    (∀ character, before.getLast? = some character → mayPrecede character) ∧
    ∀ character, after.head? = some character → isWordCharacter character = false

variable {word : List Char} {mayPrecede : Char → Bool}

theorem endsWord_iff (text : List Char) :
    endsWord text ↔ ∀ character, text.head? = some character → isWordCharacter character = false := by
  rw [endsWord]
  cases text with
  | nil => simp
  | cons character rest => simp

theorem getLast?_cons_or (character : Char) (before : List Char) (previous : Option Char) :
    (character :: before).getLast?.or previous = before.getLast?.or (some character) := by
  rw [List.getLast?_cons]
  cases before.getLast? <;> rfl

/-- The search goes through all places where the word may stand. -/
theorem mentions_iff_exists (nonempty : word ≠ []) (previous : Option Char) (text : List Char) :
    mentions word mayPrecede previous text ↔
      ∃ before after, text = before ++ (word ++ after) ∧
        (before.getLast?.or previous).all mayPrecede ∧ endsWord after := by
  induction text generalizing previous with
  | nil =>
      refine ⟨nofun, ?_⟩
      rintro ⟨before, after, isText, -, -⟩
      simp [nonempty] at isText
  | cons character rest ih =>
      simp only [mentions, Bool.or_eq_true, Bool.and_eq_true, ih]
      constructor
      · rintro (⟨⟨isFree, isAhead⟩, ends⟩ | ⟨before, after, rfl, isFree, ends⟩)
        · obtain ⟨after, isText⟩ := List.isPrefixOf_iff_prefix.mp isAhead
          rw [← isText, List.drop_left] at ends
          exact ⟨[], after, isText.symm, isFree, ends⟩
        · rw [← getLast?_cons_or] at isFree
          exact ⟨character :: before, after, rfl, isFree, ends⟩
      · rintro ⟨before, after, isText, isFree, ends⟩
        cases before with
        | nil =>
            left
            rw [List.nil_append] at isText
            rw [isText, List.drop_left, List.isPrefixOf_iff_prefix]
            exact ⟨⟨isFree, List.prefix_append word after⟩, ends⟩
        | cons first before =>
            right
            obtain ⟨rfl, rfl⟩ := List.cons.inj isText
            rw [getLast?_cons_or] at isFree
            exact ⟨before, after, rfl, isFree, ends⟩

theorem mentions_iff_isMentioned (nonempty : word ≠ []) (text : List Char) :
    mentions word mayPrecede none text ↔ IsMentioned word (mayPrecede ·) text := by
  rw [mentions_iff_exists nonempty]
  refine exists_congr fun before => exists_congr fun after => and_congr_right fun _ => ?_
  rw [endsWord_iff, Option.or_none, Option.all_eq_true]

/-- Whether a word stands at a place does not depend on what follows a character of no word. -/
theorem stands_append_separator (inWord : ∀ character ∈ word, isWordCharacter character)
    {separator : Char} (notInWord : isWordCharacter separator = false) (text rest : List Char) :
    (word.isPrefixOf (text ++ separator :: rest) &&
        endsWord ((text ++ separator :: rest).drop word.length)) =
      (word.isPrefixOf text && endsWord (text.drop word.length)) := by
  cases isAhead : word.isPrefixOf text with
  | true =>
      obtain ⟨after, rfl⟩ := List.isPrefixOf_iff_prefix.mp isAhead
      have isAhead' : word.isPrefixOf (word ++ after ++ separator :: rest) = true := by
        rw [List.isPrefixOf_iff_prefix, List.append_assoc]
        exact List.prefix_append _ _
      rw [isAhead', List.append_assoc, List.drop_left, List.drop_left]
      cases after with
      | nil => simp [endsWord, notInWord]
      | cons => rfl
  | false =>
      have notAhead : word.isPrefixOf (text ++ separator :: rest) = false := by
        rw [Bool.eq_false_iff, ne_eq, List.isPrefixOf_iff_prefix] at isAhead ⊢
        intro isPrefix
        by_cases isShort : word.length ≤ text.length
        · exact isAhead (List.prefix_of_prefix_length_le isPrefix (List.prefix_append _ _) isShort)
        · -- A longer word would hold the separator.
          have reaches : text ++ [separator] <+: word := by
            refine List.prefix_of_prefix_length_le ⟨rest, ?_⟩ isPrefix ?_
            · rw [List.append_assoc, List.singleton_append]
            · rw [List.length_append, List.length_singleton]
              omega
          have member : separator ∈ word := reaches.subset (by simp)
          rw [inWord separator member] at notInWord
          cases notInWord
      rw [notAhead, Bool.false_and, Bool.false_and]

/-- Of the character before a text, only whether it may precede the word counts. -/
theorem mentions_some {previous : Char} (mayBe : mayPrecede previous) (text : List Char) :
    mentions word mayPrecede (some previous) text = mentions word mayPrecede none text := by
  cases text with
  | nil => rfl
  | cons character rest => rw [mentions, mentions, Option.all_some, Option.all_none, mayBe]

theorem mentions_append_separator (inWord : ∀ character ∈ word, isWordCharacter character)
    (nonempty : word ≠ []) {separator : Char} (notInWord : isWordCharacter separator = false)
    (mayBe : mayPrecede separator) (previous : Option Char) (first second : List Char) :
    mentions word mayPrecede previous (first ++ separator :: second) =
      (mentions word mayPrecede previous first || mentions word mayPrecede none second) := by
  induction first generalizing previous with
  | nil =>
      have stands := stands_append_separator inWord notInWord [] second
      have notEmpty : word.isPrefixOf [] = false := by
        cases word with
        | nil => exact absurd rfl nonempty
        | cons => rfl
      rw [notEmpty, Bool.false_and, List.nil_append] at stands
      have none : mentions word mayPrecede previous [] = false := rfl
      rw [List.nil_append, none, mentions, Bool.and_assoc, stands, mentions_some mayBe,
        Bool.and_false]
  | cons character rest ih =>
      have stands := stands_append_separator inWord notInWord (character :: rest) second
      rw [List.cons_append] at stands
      rw [List.cons_append, mentions, mentions, ih, Bool.and_assoc, stands, Bool.and_assoc,
        Bool.or_assoc]

theorem any_isWordCharacter_eq_false_iff (character? : Option Char) :
    character?.any isWordCharacter = false ↔
      ∀ character, character? = some character → isWordCharacter character = false := by
  cases character? <;> simp

/-- The end of a word is a boundary where no word character follows. -/
theorem spans_literal_wordBoundary (nonempty : word ≠ [])
    (inWord : ∀ character ∈ word, isWordCharacter character) (before spanned after : List Char) :
    (TextPattern.andThen (.literal word) .wordBoundary).Spans before spanned after ↔
      spanned = word ∧ after.head?.any isWordCharacter = false := by
  have endsInWord : (before ++ word).getLast?.any isWordCharacter = true := by
    rw [List.getLast?_append_of_ne_nil _ nonempty, List.getLast?_eq_getLast_of_ne_nil nonempty]
    exact inWord _ (List.getLast_mem nonempty)
  simp only [TextPattern.Spans]
  constructor
  · rintro ⟨front, back, rfl, rfl, rfl, isBoundary⟩
    rw [endsInWord, ne_comm] at isBoundary
    exact ⟨List.append_nil _, Bool.eq_false_iff.mpr isBoundary⟩
  · rintro ⟨rfl, ends⟩
    refine ⟨spanned, [], (List.append_nil _).symm, rfl, rfl, ?_⟩
    rw [endsInWord, ends]
    exact Bool.noConfusion

/-- A word at the start of the text or after a character that may precede it. -/
theorem isFoundIn_afterEither (nonempty : word ≠ [])
    (inWord : ∀ character ∈ word, isWordCharacter character) (text : List Char) :
    (TextPattern.andThen (.either .textStart (.oneOf mayPrecede))
        (.andThen (.literal word) .wordBoundary)).IsFoundIn text ↔
      IsMentioned word (mayPrecede ·) text := by
  have spans := spans_literal_wordBoundary nonempty inWord
  constructor
  · rintro ⟨before, spanned, after, rfl, front, back, rfl, opens, closes⟩
    obtain ⟨rfl, ends⟩ := (spans _ _ _).mp closes
    rw [any_isWordCharacter_eq_false_iff] at ends
    rcases opens with ⟨rfl, rfl⟩ | ⟨character, rfl, isFree⟩
    · exact ⟨[], after, rfl, nofun, ends⟩
    · refine ⟨before ++ [character], after, by simp, fun last isLast => ?_, ends⟩
      rw [List.getLast?_concat] at isLast
      cases isLast
      exact isFree
  · rintro ⟨before, after, rfl, precedes, ends⟩
    rw [← any_isWordCharacter_eq_false_iff] at ends
    rcases List.eq_nil_or_concat before with rfl | ⟨earlier, character, rfl⟩
    · exact ⟨[], word, after, rfl, [], word, rfl, .inl ⟨rfl, rfl⟩, (spans _ _ _).mpr ⟨rfl, ends⟩⟩
    · have isFree := precedes character (by simp)
      exact ⟨earlier, [character] ++ word, after, by simp, [character], word, rfl,
        .inr ⟨character, rfl, isFree⟩, (spans _ _ _).mpr ⟨rfl, ends⟩⟩

/-- A word between two boundaries. -/
theorem isFoundIn_betweenBoundaries (nonempty : word ≠ [])
    (inWord : ∀ character ∈ word, isWordCharacter character) (text : List Char) :
    (TextPattern.andThen .wordBoundary (.andThen (.literal word) .wordBoundary)).IsFoundIn text ↔
      IsMentioned word (fun before => isWordCharacter before = false) text := by
  have spans := spans_literal_wordBoundary nonempty inWord
  have starts (after : List Char) : (word ++ after).head?.any isWordCharacter = true := by
    obtain ⟨first, rest, rfl⟩ := List.exists_cons_of_ne_nil nonempty
    exact inWord first List.mem_cons_self
  constructor
  · rintro ⟨before, spanned, after, rfl, front, back, rfl, ⟨rfl, isBoundary⟩, closes⟩
    obtain ⟨rfl, ends⟩ := (spans _ _ _).mp closes
    rw [starts, ne_eq, Bool.not_eq_true, any_isWordCharacter_eq_false_iff] at isBoundary
    rw [any_isWordCharacter_eq_false_iff] at ends
    exact ⟨before, after, rfl, isBoundary, ends⟩
  · rintro ⟨before, after, rfl, precedes, ends⟩
    rw [← any_isWordCharacter_eq_false_iff] at ends precedes
    refine ⟨before, word, after, rfl, [], word, rfl, ⟨rfl, ?_⟩, (spans _ _ _).mpr ⟨rfl, ends⟩⟩
    rw [starts, precedes]
    exact Bool.noConfusion

/-- A character that may stand directly before `await`. -/
def MayPrecedeAwait (before : Char) : Prop := isWordCharacter before = false ∧ before ≠ '.'

theorem mayPrecedeAwait_eq :
    (fun before => (!isWordCharacter before && before != '.') = true) = MayPrecedeAwait := by
  funext before
  simp only [MayPrecedeAwait, Bool.and_eq_true, Bool.not_eq_true', bne_iff_ne]

theorem isAsync_iff (text : List Char) :
    isAsync text ↔ IsMentioned "await".toList MayPrecedeAwait text := by
  rw [isAsync, mentions_iff_isMentioned (by decide), mayPrecedeAwait_eq]

theorem referencesProps_iff (text : List Char) :
    referencesProps text ↔
      IsMentioned "props".toList (fun before => isWordCharacter before = false) text := by
  rw [referencesProps, mentions_iff_isMentioned (by decide)]
  simp only [Bool.not_eq_true']

/-- The flags of an expression are what the patterns find, and they tell whether the words occur.  A
character of no word parts the expression, but for a dot, which keeps an `await` from counting. -/
theorem flags_at_separators :
    (∀ text, isAsync text ↔ awaitPattern.IsFoundIn text) ∧
      (∀ text, referencesProps text ↔ propsPattern.IsFoundIn text) ∧
      (∀ text, isAsync text ↔ IsMentioned "await".toList MayPrecedeAwait text) ∧
      (∀ text, referencesProps text ↔
        IsMentioned "props".toList (fun before => isWordCharacter before = false) text) ∧
      ∀ first second separator, isWordCharacter separator = false →
        (referencesProps (first ++ separator :: second) ↔
          referencesProps first ∨ referencesProps second) ∧
        (separator ≠ '.' →
          (isAsync (first ++ separator :: second) ↔ isAsync first ∨ isAsync second)) := by
  refine ⟨fun text => ?_, fun text => ?_, isAsync_iff, referencesProps_iff,
    fun first second separator notInWord => ⟨?_, fun notDot => ?_⟩⟩
  · rw [isAsync_iff, awaitPattern, isFoundIn_afterEither (by decide) (by decide), mayPrecedeAwait_eq]
  · rw [referencesProps_iff, propsPattern, isFoundIn_betweenBoundaries (by decide) (by decide)]
  · have mayBe : (!isWordCharacter separator) = true := by rw [notInWord, Bool.not_false]
    rw [referencesProps, mentions_append_separator (by decide) (by decide) notInWord mayBe,
      Bool.or_eq_true]
    rfl
  · have mayBe : (!isWordCharacter separator && separator != '.') = true := by
      simp [notInWord, notDot]
    rw [isAsync, mentions_append_separator (by decide) (by decide) notInWord mayBe, Bool.or_eq_true]
    rfl

/-- A property of the name `await` does not count, and what follows a semicolon does. -/
theorem flags_at_semicolon :
    isWordCharacter ';' = false ∧ ';' ≠ '.' ∧
      (isAsync ("user.await".toList ++ ';' :: "await props".toList) ↔
        isAsync "user.await".toList ∨ isAsync "await props".toList) ∧
      isAsync "user.await".toList = false ∧ isAsync "await props".toList = true := by
  have notInWord : isWordCharacter ';' = false := by decide
  have separates := flags_at_separators.2.2.2.2 "user.await".toList "await props".toList ';' notInWord
  exact ⟨notInWord, by decide, separates.2 (by decide), by decide, by decide⟩

end Expression

end TemplateMarkup
