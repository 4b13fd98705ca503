import TemplateMarkup.Proofs.Assembly.Rewording
import TemplateMarkup.Proofs.Markup.Correspondence

/-!
# Corresponding tokens

Corresponding sources have corresponding tokens: the same tags, attributes, bodies and text runs in
the same order.  A translation says what the texts, positions and spans of both sources have in
common, and the tokens are equal as far as that goes.
-/

namespace TemplateMarkup

open CharacterClass

/-- A correspondence, and what the texts, positions and spans of its two sources have in common. -/
structure Translation extends Correspondence where
  first : Rewording
  second : Rewording
  text_eq : ∀ text, second.text (String.ofList (ending.write text)) = first.text (String.ofList text)
  place_eq : ∀ {cursor other}, Relates cursor other →
    second.place other.position = first.place cursor.position
  span_eq : ∀ {start start' stop stop'}, Relates start start' → Relates stop stop' →
    second.span (stop'.spanSince start'.offset) = first.span (stop.spanSince start.offset)

namespace Cursor

variable {cursor : Cursor}

theorem readAttributes_of_attribute (isOn : cursor.skipToAttribute.isOn isNameCharacter = true) :
    cursor.readAttributes =
      (cursor.skipToAttribute.readAttribute.1 ::
          cursor.skipToAttribute.readAttribute.2.readAttributes.1,
        cursor.skipToAttribute.readAttribute.2.readAttributes.2) := by
  rw [readAttributes, dif_pos isOn]

theorem readAttributes_of_end (notOn : cursor.skipToAttribute.isOn isNameCharacter = false) :
    cursor.readAttributes = ([], cursor.skipToAttribute) := by
  rw [readAttributes, dif_neg (by simp [notOn])]

end Cursor

namespace Translation

open Correspondence

variable {both : Translation} {cursor other : Cursor}

theorem line_eq {line : List Char} (oneLine : '\n' ∉ line) :
    both.second.text (String.ofList line) = both.first.text (String.ofList line) := by
  have oneLine : '\n' ∉ (String.ofList line).toList := by rwa [String.toList_ofList]
  rw [both.second.keeps_line oneLine, both.first.keeps_line oneLine]

theorem value_eq (value : Option (List Char)) :
    ((value.map both.ending.write).map String.ofList).map both.second.text =
      (value.map String.ofList).map both.first.text := by
  cases value with
  | none => rfl
  | some text => exact congrArg some (both.text_eq text)

theorem readText_eq (related : both.Relates cursor other) :
    other.readText.1.reword both.second = cursor.readText.1.reword both.first ∧
      both.Relates cursor.readText.2 other.readText.2 := by
  obtain ⟨pieces, ends⟩ := readTextPieces_eq related
  refine ⟨?_, ends⟩
  simp only [Cursor.readText, TextRun.reword, pieces, both.text_eq, both.place_eq related,
    textEnd_eq ends]

variable (both) in
theorem splitModifier_eq {written : List Char} (oneLine : '\n' ∉ written) :
    both.second.text (Attribute.splitModifier written).1 =
        both.first.text (Attribute.splitModifier written).1 ∧
      (Attribute.splitModifier written).2.map both.second.text =
        (Attribute.splitModifier written).2.map both.first.text := by
  have name : '\n' ∉ written.takeWhile (· != ':') := fun member =>
    oneLine (List.takeWhile_subset _ member)
  have rest : '\n' ∉ written.dropWhile (· != ':') := fun member =>
    oneLine ((List.dropWhile_suffix _).subset member)
  unfold Attribute.splitModifier
  cases after : written.dropWhile (· != ':') with
  | nil => exact ⟨line_eq name, rfl⟩
  | cons colon modifier =>
      rw [after] at rest
      exact ⟨line_eq name, congrArg some (line_eq (List.not_mem_of_not_mem_cons rest))⟩

theorem directiveOf_eq (sigil : Char) {written : List Char} (oneLine : '\n' ∉ written)
    (value : Option (List Char)) {position position' : Position}
    (places : both.second.place position' = both.first.place position) :
    (Attribute.directiveOf sigil written (value.map both.ending.write) position').reword
        both.second =
      (Attribute.directiveOf sigil written value position).reword both.first := by
  have flags : (value.map both.ending.write).map Expression.classify =
      value.map Expression.classify := by
    rw [Option.map_map]
    congr 1
    funext text
    exact LineEnding.classify_write both.ending text
  have named : both.second.text Directive.bindingName = both.first.text Directive.bindingName :=
    line_eq (by decide : '\n' ∉ ['a', 't', 't', 'r'])
  obtain ⟨name, modifier⟩ := both.splitModifier_eq oneLine
  unfold Attribute.directiveOf Directive.reword
  simp only [flags, value_eq, places, Directive.mk.injEq, and_true]
  split
  · refine ⟨named, ?_⟩
    split
    · rfl
    · exact congrArg some (line_eq oneLine)
  · exact ⟨name, modifier⟩

theorem readAttribute_eq (related : both.Relates cursor other) :
    other.readAttribute.1.reword both.second = cursor.readAttribute.1.reword both.first ∧
      both.Relates cursor.readAttribute.2 other.readAttribute.2 := by
  unfold Cursor.readAttribute
  rw [sigil?_eq related]
  cases isSigil : cursor.sigil? with
  | none =>
      obtain ⟨name, reads, kept, oneLine, -⟩ := reads_name related
      obtain ⟨here, there⟩ := reads.textSince_eq
      obtain ⟨value, afterValue⟩ := readAssignedValue_eq false reads.relates
      simp only [here, there, kept, value, Attribute.reword, StaticAttribute.reword, value_eq,
        both.place_eq related, line_eq oneLine, true_and]
      exact afterValue
  | some sigil =>
      have onSigil : cursor.current? ≠ some '\n' := by
        intro onLineFeed
        rw [Cursor.sigil?, onLineFeed] at isSigil
        cases isSigil
      obtain ⟨name, reads, kept, oneLine, -⟩ := reads_name (relates_advance related onSigil)
      obtain ⟨here, there⟩ := reads.textSince_eq
      obtain ⟨value, afterValue⟩ := readAssignedValue_eq true reads.relates
      simp only [here, there, kept, value, Attribute.reword,
        directiveOf_eq sigil oneLine _ (both.place_eq related), true_and]
      exact afterValue

theorem readAttributes_eq (related : both.Relates cursor other) :
    other.readAttributes.1.map (·.reword both.second) =
        cursor.readAttributes.1.map (·.reword both.first) ∧
      both.Relates cursor.readAttributes.2 other.readAttributes.2 := by
  have attributeOrEnd : both.Alike fun place => place.isOn isNameCharacter || place.isTagEndAhead :=
    (Alike.isOn rfl).or ((Alike.isOn rfl).or alike_isSelfClosingEndAhead)
  induction size : cursor.remaining using Nat.strongRecOn generalizing cursor other with
  | ind count ih =>
      obtain ⟨_, reads⟩ := reads_seek attributeOrEnd related
      have place : both.Relates cursor.skipToAttribute other.skipToAttribute := reads.relates
      have alike : other.skipToAttribute.isOn isNameCharacter =
          cursor.skipToAttribute.isOn isNameCharacter := isOn_eq rfl place
      cases isOn : cursor.skipToAttribute.isOn isNameCharacter with
      | false =>
          rw [Cursor.readAttributes_of_end isOn, Cursor.readAttributes_of_end (alike.trans isOn)]
          exact ⟨rfl, place⟩
      | true =>
          have shorter : cursor.skipToAttribute.readAttribute.2.remaining < count :=
            size ▸ Nat.lt_of_lt_of_le (Cursor.remaining_readAttribute_lt isOn)
              (Cursor.remaining_seek_le _ _)
          obtain ⟨written, next⟩ := readAttribute_eq place
          obtain ⟨later, ends⟩ := ih _ shorter next rfl
          rw [Cursor.readAttributes_of_attribute isOn,
            Cursor.readAttributes_of_attribute (alike.trans isOn), List.map_cons, List.map_cons,
            written, later]
          exact ⟨rfl, ends⟩

theorem relates_skipTagEnd (related : both.Relates cursor other) :
    both.Relates cursor.skipTagEnd other.skipTagEnd := by
  have isSelfClosing : other.isSelfClosingEndAhead = cursor.isSelfClosingEndAhead :=
    alike_isSelfClosingEndAhead.eq related
  unfold Cursor.skipTagEnd
  rw [isSelfClosing]
  split
  · next isEnd =>
      have skipped : both.Relates (cursor.skip ['/', '>']) (other.skip ['/', '>']) :=
        relates_skip (by decide) (by decide) related
      have isAhead : cursor.startsWith ['/', '>'] := isEnd
      have isAheadToo : other.startsWith ['/', '>'] := isSelfClosing.trans isEnd
      rw [Cursor.skip, if_pos isAhead, Cursor.skip, if_pos isAheadToo] at skipped
      exact skipped
  · exact relates_skipPast (by decide) (by decide) related

theorem readOpeningTag_eq (related : both.Relates cursor other) :
    other.readOpeningTag.1.reword both.second = cursor.readOpeningTag.1.reword both.first ∧
      other.readOpeningTag.1.tag.name = cursor.readOpeningTag.1.tag.name ∧
      '\n' ∉ cursor.readOpeningTag.1.tag.name.toList ∧
      '\r' ∉ cursor.readOpeningTag.1.tag.name.toList ∧
      both.Relates cursor.readOpeningTag.2 other.readOpeningTag.2 := by
  obtain ⟨name, noLineFeed, noReturn, afterName⟩ :=
    readName_eq (relates_skip (by decide : '\n' ∉ ['<']) (by decide) related)
  obtain ⟨attributes, tagEnd⟩ := readAttributes_eq afterName
  have afterTag := relates_skipTagEnd tagEnd
  have isSelfClosing := alike_isSelfClosingEndAhead.eq tagEnd
  unfold Cursor.readOpeningTag
  simp only [name, String.toList_ofList]
  refine ⟨?_, trivial, noLineFeed, noReturn, afterTag⟩
  simp only [OpeningTag.reword, Tag.reword, line_eq noLineFeed, isSelfClosing,
    both.place_eq related, both.span_eq related afterTag, ← Attribute.filterMap_plain?_reword,
    ← Attribute.filterMap_directive?_reword, attributes]

theorem readClosingTag_eq (related : both.Relates cursor other) :
    other.readClosingTag.1.reword both.second = cursor.readClosingTag.1.reword both.first ∧
      both.Relates cursor.readClosingTag.2 other.readClosingTag.2 := by
  have opened : both.Relates (cursor.skip Cursor.closingTagOpener)
      (other.skip Cursor.closingTagOpener) := relates_skip (by decide) (by decide) related
  obtain ⟨name, noLineFeed, -, afterName⟩ := readName_eq opened
  have afterTag := relates_skipPast (by decide : '>' ≠ '\n') (by decide) afterName
  refine ⟨?_, afterTag⟩
  simp only [Cursor.readClosingTag, ClosingTag.reword, name, line_eq noLineFeed,
    both.place_eq related, both.span_eq related afterTag]

theorem readRawBody_eq (kind : RawKind) {name : List Char} (noLineFeed : '\n' ∉ name)
    (noReturn : '\r' ∉ name) (related : both.Relates cursor other) :
    (other.readRawBody kind name).1.reword both.second =
        (cursor.readRawBody kind name).1.reword both.first ∧
      both.Relates (cursor.readRawBody kind name).2 (other.readRawBody kind name).2 := by
  have bodyEnd : ∃ text, both.Reads text cursor other
      (Cursor.seekBodyEnd kind name cursor.ahead 0 none cursor)
      (Cursor.seekBodyEnd kind name other.ahead 0 none other) :=
    reads_seekBodyEnd noLineFeed noReturn nofun related
  obtain ⟨text, reads⟩ := bodyEnd
  obtain ⟨here, there⟩ := reads.textSince_eq
  refine ⟨?_, (readClosingTag_eq reads.relates).2⟩
  simp only [Cursor.readRawBody, RawBody.reword, here, there, both.text_eq, both.place_eq related]

theorem readElementStart_eq (related : both.Relates cursor other) :
    other.readElementStart.1.1.reword both.second =
        cursor.readElementStart.1.1.reword both.first ∧
      other.readElementStart.1.2.map (·.reword both.second) =
        cursor.readElementStart.1.2.map (·.reword both.first) ∧
      both.Relates cursor.readElementStart.2 other.readElementStart.2 := by
  obtain ⟨opening, name, noLineFeed, noReturn, afterTag⟩ := readOpeningTag_eq related
  have rawKind : other.readOpeningTag.1.rawKind? = cursor.readOpeningTag.1.rawKind? := by
    rw [← OpeningTag.rawKind?_reword both.second, opening, OpeningTag.rawKind?_reword]
  unfold Cursor.readElementStart
  simp only [rawKind, name]
  cases cursor.readOpeningTag.1.rawKind? with
  | none => exact ⟨opening, rfl, afterTag⟩
  | some kind =>
      obtain ⟨body, afterBody⟩ := readRawBody_eq kind noLineFeed noReturn afterTag
      exact ⟨opening, congrArg some body, afterBody⟩

/-- Corresponding places have the same tokens ahead, as far as the translation goes. -/
theorem tokens_eq (related : both.Relates cursor other) :
    other.tokens.map (·.reword both.second) = cursor.tokens.map (·.reword both.first) := by
  induction size : cursor.remaining using Nat.strongRecOn generalizing cursor other with
  | ind count ih =>
      -- The text run may be empty, but a tag never is.
      obtain ⟨run, ends⟩ := readText_eq related
      have opens : other.readText.2.isOpeningTagAhead = cursor.readText.2.isOpeningTagAhead :=
        alike_isOpeningTagAhead.eq ends
      have closes : other.readText.2.isClosingTagAhead = cursor.readText.2.isClosingTagAhead :=
        alike_isClosingTagAhead.eq ends
      have shorter {place : Cursor} (progress : place.remaining < cursor.readText.2.remaining) :
          place.remaining < count :=
        size ▸ Nat.lt_of_lt_of_le progress (Cursor.remaining_readText_le _)
      rw [Cursor.tokens, Cursor.tokens]
      simp only [List.map_cons, opens, closes]
      refine congrArg₂ List.cons (congrArg Token.text run) ?_
      split
      · next isOpening =>
          obtain ⟨opening, body, next⟩ := readElementStart_eq ends
          have later := ih _ (shorter (Cursor.remaining_readElementStart_lt isOpening)) next rfl
          rw [List.map_cons, List.map_cons, later]
          exact congrArg (· :: _) (congrArg₂ Token.opening opening body)
      · split
        · next isClosing =>
            obtain ⟨closing, next⟩ := readClosingTag_eq ends
            have later := ih _ (shorter (Cursor.remaining_readClosingTag_lt isClosing)) next rfl
            rw [List.map_cons, List.map_cons, later]
            exact congrArg (· :: _) (congrArg Token.closing closing)
        · rfl

end Translation

end TemplateMarkup
