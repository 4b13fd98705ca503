import TemplateMarkup.Proofs.Markup.Correspondence
import TemplateMarkup.Proofs.Markup.Translation
import TemplateMarkup.Proofs.Source.Fork

/-!
# Reading before a fork

What is read before a fork is the same in both sources, except for its positions and spans.  Tags and
raw bodies have their ends among the places that have to stand before the fork; whatever follows the
end of a tag does not matter.

A source may also fork at its very end.  Then nothing at all is beyond the fork, and the tokens depend
on nothing but the text ahead.
-/

namespace TemplateMarkup

open CharacterClass

namespace Cursor

/-- The place of the `>` or `/>` of an opening tag. -/
def openingTagEnd (cursor : Cursor) : Cursor :=
  (cursor.skip ['<']).readName.2.readAttributes.2

/-- The place of the `>` of a closing tag. -/
def closingTagEnd (cursor : Cursor) : Cursor :=
  (cursor.skip closingTagOpener).readName.2.seek fun place => place.isOn (· == '>')

/-- The place of the closing tag of a raw body. -/
def bodyEnd (cursor : Cursor) (kind : RawKind) (name : List Char) : Cursor :=
  seekBodyEnd kind name cursor.ahead 0 none cursor

theorem readOpeningTag_snd (cursor : Cursor) :
    cursor.readOpeningTag.2 = cursor.openingTagEnd.skipTagEnd :=
  rfl

theorem readClosingTag_snd (cursor : Cursor) :
    cursor.readClosingTag.2 = cursor.closingTagEnd.advance :=
  rfl

theorem readRawBody_snd (cursor : Cursor) (kind : RawKind) (name : List Char) :
    (cursor.readRawBody kind name).2 = (cursor.bodyEnd kind name).readClosingTag.2 :=
  rfl

/-- The same can be found by looking back over backslashes, and to a carriage return. -/
structure SameBehind (cursor other : Cursor) : Prop where
  backslashes : other.backslashesBehind = cursor.backslashesBehind
  afterReturn : (other.previous? == some '\r') = (cursor.previous? == some '\r')

variable {cursor other : Cursor} {character : Char} {rest rest' : List Char}

theorem SameBehind.isEscaped_eq (sameBehind : SameBehind cursor other) :
    other.isEscaped = cursor.isEscaped := by
  rw [isEscaped, isEscaped, sameBehind.backslashes]

theorem SameBehind.advance (sameBehind : SameBehind cursor other)
    (ahead : cursor.ahead = character :: rest) (ahead' : other.ahead = character :: rest') :
    SameBehind cursor.advance other.advance := by
  have count := sameBehind.backslashes
  constructor
  · simp only [backslashesBehind, advance_of_ahead_cons ahead, advance_of_ahead_cons ahead',
      List.takeWhile_cons] at count ⊢
    split
    · simp only [List.length_cons, count]
    · rfl
  · simp only [previous?, advance_of_ahead_cons ahead, advance_of_ahead_cons ahead',
      List.head?_cons]

/-- After a character that is no backslash nothing before it is found any more. -/
theorem sameBehind_advance (notBackslash : character ≠ '\\')
    (ahead : cursor.ahead = character :: rest) (ahead' : other.ahead = character :: rest') :
    SameBehind cursor.advance other.advance := by
  have stops : (character == '\\') = false := beq_false_of_ne notBackslash
  constructor
  · simp [backslashesBehind, advance_of_ahead_cons ahead, advance_of_ahead_cons ahead', stops]
  · simp only [previous?, advance_of_ahead_cons ahead, advance_of_ahead_cons ahead',
      List.head?_cons]

end Cursor

namespace Fork

open Cursor

variable {fork : Fork} {cursor other : Cursor}

theorem isOpeningTagAhead_eq (related : fork.Relates cursor other) :
    other.isOpeningTagAhead = cursor.isOpeningTagAhead := by
  have peek (place : Cursor) : place.peek? 1 = place.ahead.tail.head? := by
    rw [peek?, List.head?_eq_getElem?, List.getElem?_tail]
  have angle : other.isOn (· == '<') = cursor.isOn (· == '<') := isOn_eq (by decide) related
  obtain ⟨text, ahead, ahead'⟩ := related
  unfold isOpeningTagAhead
  rw [angle, peek, peek]
  cases text with
  | cons character text =>
      rw [ahead, ahead', List.cons_append, List.cons_append, List.tail_cons, List.tail_cons,
        fork.alike.any_head?_append (by decide)]
  | nil =>
      -- Nothing at the fork is an angle bracket.
      have notAngle : cursor.isOn (· == '<') = false := by
        rw [isOn, current?, ahead]
        obtain ⟨rest, rest', alike⟩ := fork
        cases alike with
        | ended => rfl
        | angle => rfl
        | space isSpace =>
            exact beq_eq_false_of_isWhitespace rfl isSpace
      rw [notAngle, Bool.false_and, Bool.false_and]

theorem isClosingTagAhead_eq (related : fork.Relates cursor other) :
    other.isClosingTagAhead = cursor.isClosingTagAhead :=
  startsWith_eq (by decide) related

theorem isCommentAhead_eq (related : fork.Relates cursor other) :
    other.isCommentAhead = cursor.isCommentAhead :=
  startsWith_eq (by decide) related

theorem alike_endsTextPiece : fork.Alike endsTextPiece where
  eq related := by
    rw [endsTextPiece, isOpeningTagAhead_eq related, isClosingTagAhead_eq related,
      isCommentAhead_eq related, endsTextPiece]

theorem textEnd_eq (related : fork.Relates cursor other) : other.textEnd = cursor.textEnd := by
  unfold textEnd
  rw [isOpeningTagAhead_eq related, isClosingTagAhead_eq related]

theorem relates_skipComment (related : fork.Relates cursor other)
    (within : fork.Precedes cursor.skipComment) :
    fork.Relates cursor.skipComment other.skipComment := by
  have atCloser := within.of_le (remaining_skip_le _ _)
  have atOpener := atCloser.of_le (remaining_seek_le _ _)
  have opened : fork.Relates (cursor.skip commentOpener) (other.skip commentOpener) :=
    relates_skip (by decide) related atOpener
  have closes : fork.Alike fun place => place.startsWith commentCloser :=
    .startsWith (by decide)
  exact relates_skip (by decide) (relates_seek closes opened atCloser) within

theorem readTextPieces_eq (related : fork.Relates cursor other)
    (within : fork.Precedes cursor.readTextPieces.2) :
    other.readTextPieces.1 = cursor.readTextPieces.1 ∧
      fork.Relates cursor.readTextPieces.2 other.readTextPieces.2 := by
  induction size : cursor.remaining using Nat.strongRecOn generalizing cursor other with
  | ind count ih =>
      cases isComment : (cursor.seek endsTextPiece).isCommentAhead with
      | false =>
          rw [readTextPieces_of_end isComment] at within
          obtain ⟨text, reads⟩ := reads_seek alike_endsTextPiece related within
          have isEnd := (isCommentAhead_eq reads.relates).trans isComment
          rw [readTextPieces_of_end isComment, readTextPieces_of_end isEnd]
          exact ⟨reads.textSince_eq, reads.relates⟩
      | true =>
          rw [readTextPieces_of_comment isComment] at within
          have afterComment := within.of_le (remaining_readTextPieces_le _)
          have atComment :=
            afterComment.of_le (Nat.le_of_lt (remaining_skipComment_lt isComment))
          obtain ⟨text, reads⟩ := reads_seek alike_endsTextPiece related atComment
          have isCommentToo := (isCommentAhead_eq reads.relates).trans isComment
          have shorter : (cursor.seek endsTextPiece).skipComment.remaining < count :=
            size ▸ Nat.lt_of_lt_of_le (remaining_skipComment_lt isComment)
              (remaining_seek_le _ _)
          obtain ⟨later, ends⟩ :=
            ih _ shorter (relates_skipComment reads.relates afterComment) within rfl
          rw [readTextPieces_of_comment isComment, readTextPieces_of_comment isCommentToo,
            reads.textSince_eq, later]
          exact ⟨rfl, ends⟩

theorem readText_eq (related : fork.Relates cursor other)
    (within : fork.Precedes cursor.readText.2) :
    other.readText.1.reword .unplaced = cursor.readText.1.reword .unplaced ∧
      fork.Relates cursor.readText.2 other.readText.2 := by
  obtain ⟨pieces, ends⟩ := readTextPieces_eq related within
  refine ⟨?_, ends⟩
  simp only [readText, TextRun.reword, pieces, textEnd_eq ends]
  rfl

theorem readName_eq (related : fork.Relates cursor other)
    (within : fork.Precedes cursor.readName.2) :
    other.readName.1 = cursor.readName.1 ∧
      (∀ character ∈ cursor.readName.1, isNameCharacter character) ∧
      fork.Relates cursor.readName.2 other.readName.2 := by
  have ends : fork.Alike fun place => !place.isOn isNameCharacter :=
    (Alike.isOn (by decide)).not
  obtain ⟨name, reads⟩ := reads_seek ends related within
  have written : cursor.readName.1 = name := reads.passes.textSince_eq
  refine ⟨reads.textSince_eq, ?_, reads.relates⟩
  rw [written]
  exact reads.passes.belongs_of_skipWhile

theorem readQuotedValue_eq {quote : Char}
    (quoteIsVisible : isWhitespace quote = false) (sameBehind : SameBehind cursor other)
    (related : fork.Relates cursor other)
    (within : fork.Precedes (cursor.readQuotedValue quote).2) :
    (other.readQuotedValue quote).1 = (cursor.readQuotedValue quote).1 ∧
      fork.Relates (cursor.readQuotedValue quote).2 (other.readQuotedValue quote).2 := by
  have atQuote := within.of_le (remaining_advance_le _)
  obtain ⟨text, reads⟩ := reads_seek_of SameBehind
    (fun sameBehind ahead ahead' => sameBehind.advance ahead ahead')
    (fun related sameBehind => by
      rw [isOn_eq (isUniform_beq quoteIsVisible) related, sameBehind.isEscaped_eq])
    related sameBehind atQuote
  exact ⟨reads.textSince_eq, relates_advance reads.relates within⟩

theorem isSelfClosingEndAhead_eq (related : fork.Relates cursor other) :
    other.isSelfClosingEndAhead = cursor.isSelfClosingEndAhead :=
  startsWith_eq (by decide) related

theorem readUnquotedValue_eq (related : fork.Relates cursor other)
    (within : fork.Precedes cursor.readUnquotedValue.2) :
    other.readUnquotedValue.1 = cursor.readUnquotedValue.1 ∧
      fork.Relates cursor.readUnquotedValue.2 other.readUnquotedValue.2 := by
  have ends : fork.Alike fun place =>
      place.isSelfClosingEndAhead || !place.isOn isUnquotedValueCharacter :=
    Alike.or ⟨isSelfClosingEndAhead_eq⟩ (Alike.isOn (by decide)).not
  obtain ⟨text, reads⟩ := reads_seek ends related within
  exact ⟨reads.textSince_eq, reads.relates⟩

theorem readAttributeValue_of_not_quoted {backtickQuotes : Bool} {character : Char}
    (current : cursor.current? = some character)
    (notQuoted : (isQuote character && (character != '`' || backtickQuotes)) = false) :
    cursor.readAttributeValue backtickQuotes =
      (some cursor.readUnquotedValue.1, cursor.readUnquotedValue.2) := by
  simp only [readAttributeValue, current, notQuoted, Bool.false_eq_true, if_false]

theorem readAttributeValue_of_quoted {backtickQuotes : Bool} {character : Char}
    (current : cursor.current? = some character)
    (quoted : (isQuote character && (character != '`' || backtickQuotes)) = true) :
    cursor.readAttributeValue backtickQuotes =
      (some (cursor.advance.readQuotedValue character).1,
        (cursor.advance.readQuotedValue character).2) := by
  simp only [readAttributeValue, current, quoted, if_true]

/-- Nothing at a fork is a quote. -/
theorem current?_at_fork (alike : AreAlike fork.rest fork.rest') :
    fork.rest = [] ∨ ∃ character character',
      fork.rest.head? = some character ∧ fork.rest'.head? = some character' ∧
        isQuote character = false ∧ isQuote character' = false := by
  have uniform : IsUniform isQuote := by decide
  generalize fork.rest = rest at alike
  generalize fork.rest' = rest' at alike
  cases alike with
  | ended => exact .inl rfl
  | angle => exact .inr ⟨'>', '>', rfl, rfl, by decide, by decide⟩
  | space isSpace isSpace' =>
      exact .inr ⟨_, _, rfl, rfl, uniform.eq isSpace, uniform.eq isSpace'⟩

theorem readAttributeValue_eq (backtickQuotes : Bool) (related : fork.Relates cursor other)
    (within : fork.Precedes (cursor.readAttributeValue backtickQuotes).2) :
    (other.readAttributeValue backtickQuotes).1 = (cursor.readAttributeValue backtickQuotes).1 ∧
      fork.Relates (cursor.readAttributeValue backtickQuotes).2
        (other.readAttributeValue backtickQuotes).2 := by
  have unquoted {character character' : Char} (current : cursor.current? = some character)
      (current' : other.current? = some character')
      (notQuoted : (isQuote character && (character != '`' || backtickQuotes)) = false)
      (notQuoted' : (isQuote character' && (character' != '`' || backtickQuotes)) = false) :
      (other.readAttributeValue backtickQuotes).1 = (cursor.readAttributeValue backtickQuotes).1 ∧
        fork.Relates (cursor.readAttributeValue backtickQuotes).2
          (other.readAttributeValue backtickQuotes).2 := by
    rw [readAttributeValue_of_not_quoted current notQuoted] at within ⊢
    rw [readAttributeValue_of_not_quoted current' notQuoted']
    obtain ⟨value, afterValue⟩ := readUnquotedValue_eq related within
    exact ⟨congrArg some value, afterValue⟩
  rcases related.cases with ⟨atFork, atFork'⟩ | ⟨character, rest, rest', ahead, ahead', next⟩
  · rcases current?_at_fork fork.alike with noRest | ⟨first, first', isFirst, isFirst', plain, plain'⟩
    · have atEnd : cursor.current? = none := by rw [current?, atFork, noRest]; rfl
      have atEnd' : other.current? = none := by
        rw [current?, atFork', rest_eq_nil_iff.mp noRest]
        rfl
      simp only [readAttributeValue, atEnd, atEnd']
      exact ⟨trivial, related⟩
    · exact unquoted (by rw [current?, atFork, isFirst]) (by rw [current?, atFork', isFirst'])
        (by rw [plain, Bool.false_and]) (by rw [plain', Bool.false_and])
  · have current : cursor.current? = some character := by rw [current?, ahead]; rfl
    have current' : other.current? = some character := by rw [current?, ahead']; rfl
    cases quoted : isQuote character && (character != '`' || backtickQuotes) with
    | false => exact unquoted current current' quoted quoted
    | true =>
        have isQuoted : isQuote character = true := (Bool.and_eq_true _ _ ▸ quoted).1
        have notBackslash : character ≠ '\\' := by
          rintro rfl
          cases isQuoted
        have visible : isWhitespace character = false := by
          rw [Bool.eq_false_iff]
          intro isSpace
          have uniform : IsUniform isQuote := by decide
          rw [uniform.eq isSpace] at isQuoted
          cases isQuoted
        rw [readAttributeValue_of_quoted current quoted] at within ⊢
        rw [readAttributeValue_of_quoted current' quoted]
        obtain ⟨value, afterValue⟩ :=
          readQuotedValue_eq visible (sameBehind_advance notBackslash ahead ahead') next within
        exact ⟨congrArg some value, afterValue⟩

theorem relates_skipWhitespace (related : fork.Relates cursor other)
    (within : fork.Precedes cursor.skipWhitespace) :
    fork.Relates cursor.skipWhitespace other.skipWhitespace :=
  relates_seek (Alike.isOn (by decide)).not related within

theorem readAssignedValue_eq (backtickQuotes : Bool) (related : fork.Relates cursor other)
    (within : fork.Precedes (cursor.readAssignedValue backtickQuotes).2) :
    (other.readAssignedValue backtickQuotes).1 = (cursor.readAssignedValue backtickQuotes).1 ∧
      fork.Relates (cursor.readAssignedValue backtickQuotes).2
        (other.readAssignedValue backtickQuotes).2 := by
  unfold readAssignedValue at *
  simp only at within ⊢
  cases isAssigned : cursor.skipWhitespace.startsWith ['='] with
  | false =>
      rw [isAssigned] at within
      have afterName := relates_skipWhitespace related within
      rw [startsWith_eq (by decide) afterName, isAssigned]
      exact ⟨rfl, afterName⟩
  | true =>
      rw [isAssigned, if_pos rfl] at within
      have atValue := within.of_le (remaining_readAttributeValue_le _ _)
      have afterEquals := atValue.of_le (remaining_skipWhitespace_le _)
      have afterName :=
        relates_skipWhitespace related (afterEquals.of_le (remaining_advance_le _))
      rw [startsWith_eq (by decide) afterName, isAssigned]
      exact readAttributeValue_eq backtickQuotes
        (relates_skipWhitespace (relates_advance afterName afterEquals) atValue) within

theorem sigil?_eq (related : fork.Relates cursor other)
    (onName : cursor.isOn isNameCharacter) : other.sigil? = cursor.sigil? := by
  rcases related.cases with ⟨atFork, -⟩ | ⟨character, rest, rest', ahead, ahead', -⟩
  · -- No name starts at a fork.
    rw [isOn, current?, atFork] at onName
    obtain ⟨rest, rest', alike⟩ := fork
    cases alike with
    | ended => cases onName
    | angle => cases onName
    | space isSpace =>
        have uniform : IsUniform isNameCharacter := by decide
        have onName : isNameCharacter _ = true := onName
        rw [uniform.eq isSpace] at onName
        cases onName
  · rw [sigil?, sigil?, current?, current?, ahead, ahead']
    rfl

theorem readAttribute_eq (related : fork.Relates cursor other)
    (onName : cursor.isOn isNameCharacter) (within : fork.Precedes cursor.readAttribute.2) :
    other.readAttribute.1.reword .unplaced = cursor.readAttribute.1.reword .unplaced ∧
      fork.Relates cursor.readAttribute.2 other.readAttribute.2 := by
  have ends : fork.Alike fun place => !place.isOn isNameCharacter :=
    (Alike.isOn (by decide)).not
  unfold readAttribute at *
  rw [sigil?_eq related onName]
  cases isSigil : cursor.sigil? with
  | none =>
      simp only [isSigil] at within
      obtain ⟨name, reads⟩ := reads_seek ends related
        (within.of_le (remaining_readAssignedValue_le _ _))
      obtain ⟨value, afterValue⟩ := readAssignedValue_eq false reads.relates within
      have sameName : (other.skipWhile isNameCharacter).textSince other.offset =
          (cursor.skipWhile isNameCharacter).textSince cursor.offset := reads.textSince_eq
      have sameValue : ((other.skipWhile isNameCharacter).readAssignedValue false).1 =
          ((cursor.skipWhile isNameCharacter).readAssignedValue false).1 := value
      simp only [sameName, sameValue]
      exact ⟨rfl, afterValue⟩
  | some sigil =>
      simp only [isSigil] at within
      have afterName := within.of_le (remaining_readAssignedValue_le _ _)
      have afterSigil := relates_advance related (afterName.of_le (remaining_skipWhile_le _ _))
      obtain ⟨name, reads⟩ := reads_seek ends afterSigil afterName
      obtain ⟨value, afterValue⟩ := readAssignedValue_eq true reads.relates within
      have sameName : (other.advance.skipWhile isNameCharacter).textSince other.advance.offset =
          (cursor.advance.skipWhile isNameCharacter).textSince cursor.advance.offset :=
        reads.textSince_eq
      have sameValue : ((other.advance.skipWhile isNameCharacter).readAssignedValue true).1 =
          ((cursor.advance.skipWhile isNameCharacter).readAssignedValue true).1 := value
      simp only [sameName, sameValue]
      exact ⟨rfl, afterValue⟩

theorem alike_isAttributeOrTagEnd :
    fork.Alike fun place => place.isOn isNameCharacter || place.isTagEndAhead :=
  (Alike.isOn (by decide)).or ((Alike.isOn (by decide)).or ⟨isSelfClosingEndAhead_eq⟩)

theorem readAttributes_eq (related : fork.Relates cursor other)
    (within : fork.Precedes cursor.readAttributes.2) :
    other.readAttributes.1.map (·.reword .unplaced) =
        cursor.readAttributes.1.map (·.reword .unplaced) ∧
      fork.Relates cursor.readAttributes.2 other.readAttributes.2 := by
  induction size : cursor.remaining using Nat.strongRecOn generalizing cursor other with
  | ind count ih =>
      cases isOn : cursor.skipToAttribute.isOn isNameCharacter with
      | false =>
          rw [readAttributes_of_end isOn] at within
          have place : fork.Relates cursor.skipToAttribute other.skipToAttribute :=
            relates_seek alike_isAttributeOrTagEnd related within
          have isOnToo := (isOn_eq (by decide) place).trans isOn
          rw [readAttributes_of_end isOn, readAttributes_of_end isOnToo]
          exact ⟨rfl, place⟩
      | true =>
          rw [readAttributes_of_attribute isOn] at within
          have afterFirst := within.of_le (remaining_readAttributes_le _)
          have place : fork.Relates cursor.skipToAttribute other.skipToAttribute :=
            relates_seek alike_isAttributeOrTagEnd related
              (afterFirst.of_le (Nat.le_of_lt (remaining_readAttribute_lt isOn)))
          have isOnToo := (isOn_eq (by decide) place).trans isOn
          have shorter : cursor.skipToAttribute.readAttribute.2.remaining < count :=
            size ▸ Nat.lt_of_lt_of_le (remaining_readAttribute_lt isOn) (remaining_seek_le _ _)
          obtain ⟨written, next⟩ := readAttribute_eq place isOn afterFirst
          obtain ⟨later, ends⟩ := ih _ shorter next within rfl
          rw [readAttributes_of_attribute isOn, readAttributes_of_attribute isOnToo,
            List.map_cons, List.map_cons, written, later]
          exact ⟨rfl, ends⟩

theorem readOpeningTag_eq (related : fork.Relates cursor other)
    (within : fork.Precedes cursor.openingTagEnd) :
    other.readOpeningTag.1.reword .unplaced = cursor.readOpeningTag.1.reword .unplaced ∧
      (∀ character ∈ cursor.readOpeningTag.1.tag.name.toList, isNameCharacter character) ∧
      fork.Relates cursor.openingTagEnd other.openingTagEnd := by
  have afterName := within.of_le (remaining_readAttributes_le _)
  have opened : fork.Relates (cursor.skip ['<']) (other.skip ['<']) :=
    relates_skip (by decide) related (afterName.of_le (remaining_skipWhile_le _ _))
  obtain ⟨name, legal, atAttributes⟩ := readName_eq opened afterName
  obtain ⟨attributes, tagEnd⟩ := readAttributes_eq atAttributes within
  have isSelfClosing := isSelfClosingEndAhead_eq tagEnd
  unfold openingTagEnd readOpeningTag
  simp only [name, String.toList_ofList]
  refine ⟨?_, legal, tagEnd⟩
  simp only [OpeningTag.reword, Tag.reword, isSelfClosing, ← Attribute.filterMap_plain?_reword,
    ← Attribute.filterMap_directive?_reword, attributes]
  rfl

theorem readClosingTag_eq (related : fork.Relates cursor other)
    (within : fork.Precedes cursor.closingTagEnd) :
    other.readClosingTag.1.reword .unplaced = cursor.readClosingTag.1.reword .unplaced ∧
      fork.Relates cursor.closingTagEnd other.closingTagEnd := by
  have afterName := within.of_le (remaining_seek_le _ _)
  have opened : fork.Relates (cursor.skip closingTagOpener) (other.skip closingTagOpener) :=
    relates_skip (by decide) related (afterName.of_le (remaining_skipWhile_le _ _))
  obtain ⟨name, -, atEnd⟩ := readName_eq opened afterName
  refine ⟨?_, relates_seek (.isOn (by decide)) atEnd within⟩
  simp only [readClosingTag, ClosingTag.reword, name]
  rfl

section RawBodies

variable {kind : RawKind} {name rest rest' : List Char} {depth : Nat} {quote : Option Char}
variable {character : Char}

theorem isNamedTagAhead_eq {opener : List Char}
    (fits : ∀ character ∈ opener ++ name, isWhitespace character = false ∧ character ≠ '>')
    (related : fork.Relates cursor other) :
    other.isNamedTagAhead opener name = cursor.isNamedTagAhead opener name := by
  obtain ⟨text, ahead, ahead'⟩ := related
  simp only [isNamedTagAhead, startsWith, ahead, ahead']
  refine fork.alike.isPrefixOf_and_all_head?_append fits ?_ text
  intro character isSpace
  simp [isSpace]

theorem fits_named_tag {opener : List Char} (legal : ∀ character ∈ name, isNameCharacter character)
    (fitsOpener : ∀ character ∈ opener, isWhitespace character = false ∧ character ≠ '>') :
    ∀ character ∈ opener ++ name, isWhitespace character = false ∧ character ≠ '>' := by
  intro character member
  rcases List.mem_append.mp member with inOpener | inName
  · exact fitsOpener character inOpener
  · have isLegal := legal character inName
    constructor
    · rw [Bool.eq_false_iff]
      intro isSpace
      have uniform : IsUniform isNameCharacter := by decide
      rw [uniform.eq isSpace] at isLegal
      cases isLegal
    · rintro rfl
      cases isLegal

theorem bodyStep_eq (legal : ∀ character ∈ name, isNameCharacter character)
    (sameBehind : quote.isSome → SameBehind cursor other) (related : fork.Relates cursor other)
    (ahead : cursor.ahead = character :: rest) (ahead' : other.ahead = character :: rest') :
    bodyStep kind name depth quote character other =
      bodyStep kind name depth quote character cursor := by
  unfold bodyStep
  cases quote with
  | some quote =>
      have sameBehind := sameBehind rfl
      have ends : other.endsLiteral quote = cursor.endsLiteral quote := by
        simp only [endsLiteral, continuesLine, isOn_of_ahead_cons ahead, isOn_of_ahead_cons ahead',
          sameBehind.isEscaped_eq, sameBehind.afterReturn]
      simp only [ends]
  | none =>
      have closing : other.isNamedTagAhead closingTagOpener name =
          cursor.isNamedTagAhead closingTagOpener name :=
        isNamedTagAhead_eq (fits_named_tag legal (by decide)) related
      have opening : other.isNamedTagAhead ['<'] name = cursor.isNamedTagAhead ['<'] name :=
        isNamedTagAhead_eq (fits_named_tag legal (by decide)) related
      rw [closing, opening]

/-- A literal is opened by a quote, and from there on both sources look the same behind. -/
theorem sameBehind_of_bodyStep {deeper : Nat} {quote' : Option Char}
    (sameBehind : quote.isSome → SameBehind cursor other)
    (ahead : cursor.ahead = character :: rest) (ahead' : other.ahead = character :: rest')
    (step : bodyStep kind name depth quote character cursor = some (deeper, quote')) :
    quote'.isSome → SameBehind cursor.advance other.advance := by
  intro isOpen
  cases quote with
  | some quote => exact (sameBehind rfl).advance ahead ahead'
  | none =>
      refine sameBehind_advance ?_ ahead ahead'
      rintro rfl
      have notQuote : kind.isQuote '\\' = false := by cases kind <;> rfl
      simp only [bodyStep, notQuote, Bool.false_eq_true, if_false] at step
      split at step
      · split at step <;> cases step
        cases isOpen
      · split at step <;> cases step <;> cases isOpen

variable (kind depth quote) in
/-- A raw body whose closing tag starts before the fork is read alike. -/
theorem reads_seekBodyEnd (legal : ∀ character ∈ name, isNameCharacter character)
    (sameBehind : quote.isSome → SameBehind cursor other) (related : fork.Relates cursor other)
    (within : fork.rest = [] ∨
      fork.rest.length < (seekBodyEnd kind name cursor.ahead depth quote cursor).remaining) :
    ∃ read, fork.Reads read cursor other (seekBodyEnd kind name cursor.ahead depth quote cursor)
      (seekBodyEnd kind name other.ahead depth quote other) := by
  induction size : cursor.remaining generalizing cursor other depth quote with
  | zero =>
      have atEnd : cursor.ahead = [] := List.length_eq_zero_iff.mp size
      have atEnd' := related.ahead_eq_nil_iff.mpr atEnd
      rw [atEnd, atEnd', seekBodyEnd, seekBodyEnd]
      exact ⟨[], .done related⟩
  | succ count ih =>
      rcases related.cases with ⟨atFork, -⟩ | ⟨character, rest, rest', ahead, ahead', next⟩
      · exfalso
        have noFurther := remaining_seekBodyEnd_le kind name cursor.ahead depth quote cursor
        rw [remaining, atFork] at size
        rcases within with noRest | inside
        · simp [noRest] at size
        · have start : cursor.remaining = fork.rest.length := congrArg List.length atFork
          exact absurd (Nat.lt_of_lt_of_le inside (start ▸ noFurther)) (Nat.lt_irrefl _)
      · have sameStep : bodyStep kind name depth quote character other =
            bodyStep kind name depth quote character cursor :=
          bodyStep_eq legal sameBehind related ahead ahead'
        rw [seekBodyEnd_of_ahead_cons ahead] at within ⊢
        rw [seekBodyEnd_of_ahead_cons ahead', sameStep]
        cases step : bodyStep kind name depth quote character cursor with
        | none => exact ⟨[], .done related⟩
        | some state =>
            have shorter : cursor.advance.remaining = count := by
              simp only [remaining, ahead_advance, List.length_tail] at size ⊢
              omega
            rw [step] at within
            obtain ⟨read, reads⟩ :=
              ih _ _ (sameBehind_of_bodyStep sameBehind ahead ahead' step) next within shorter
            exact ⟨character :: read, .next ahead reads.passes, .next ahead' reads.passes',
              reads.relates⟩

end RawBodies

end Fork

end TemplateMarkup
