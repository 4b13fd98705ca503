import TemplateMarkup.Proofs.Markup.Movement
import TemplateMarkup.Proofs.Markup.RunText

/-!
# Text runs and the comments in them

What a text run takes from the source is pieces of text with a comment between each two of them.  No
tag and no comment starts anywhere in a piece, as the source goes on there, and a comment goes to the
first closer after its opener.  The run says what its pieces say, and it ends where a tag starts or
where the source ends.
-/

namespace TemplateMarkup

open CharacterClass

/-- What stands at the end of a text run, given the rest of the source. -/
inductive TextEnd.StandsBefore : TextEnd → List Char → Prop where
  | openingTag {first : Char} {rest : List Char} (starts : startsTagName first) :
      StandsBefore .openingTag ('<' :: first :: rest)
  | closingTag {rest : List Char} : StandsBefore .closingTag ('<' :: '/' :: rest)
  | endOfInput : StandsBefore .endOfInput []

theorem TextEnd.StandsBefore.eq_endOfInput {ending : TextEnd} (stands : ending.StandsBefore []) :
    ending = .endOfInput := by
  cases stands
  rfl

/-- A comment or a tag starts here. -/
inductive StartsMark : List Char → Prop where
  | comment {rest : List Char} : StartsMark ('<' :: '!' :: '-' :: '-' :: rest)
  | openingTag {first : Char} {rest : List Char} (starts : startsTagName first) :
      StartsMark ('<' :: first :: rest)
  | closingTag {rest : List Char} : StartsMark ('<' :: '/' :: rest)

/-- Something starts at no place of a text that the rest follows. -/
def StartsNowhere (starts : List Char → Prop) (text rest : List Char) : Prop :=
  ∀ before after, text = before ++ after → after ≠ [] → ¬ starts (after ++ rest)

/-- A comment as it is written. -/
structure WrittenComment where
  /-- What follows the opener, up to the closer if there is one. -/
  body : List Char
  isClosed : Bool

namespace WrittenComment

def closing (comment : WrittenComment) : List Char :=
  if comment.isClosed then Cursor.commentCloser else []

def written (comment : WrittenComment) : List Char :=
  Cursor.commentOpener ++ comment.body ++ comment.closing

/-- The comment goes to the first closer, or to the end of the source if there is no closer. -/
structure IsWholeBefore (comment : WrittenComment) (rest : List Char) : Prop where
  noCloser : StartsNowhere (Cursor.commentCloser <+: ·) comment.body (comment.closing ++ rest)
  ends : comment.isClosed ∨ rest = []

end WrittenComment

/-- Pieces of text with comments between them. -/
inductive PartedText where
  | plain (piece : List Char)
  | commented (piece : List Char) (comment : WrittenComment) (later : PartedText)

namespace PartedText

def written : PartedText → List Char
  | plain piece => piece
  | commented piece comment later => piece ++ comment.written ++ later.written

def text : PartedText → List Char
  | plain piece => piece
  | commented piece _ later => piece ++ later.text

def comments : PartedText → List WrittenComment
  | plain _ => []
  | commented _ comment later => comment :: later.comments

/-- Before the rest of the source, the pieces are free of marks and the comments are whole. -/
inductive IsReadBefore (rest : List Char) : PartedText → Prop where
  | plain {piece : List Char} (noMark : StartsNowhere StartsMark piece rest) :
      IsReadBefore rest (.plain piece)
  | commented {piece : List Char} {comment : WrittenComment} {later : PartedText}
      (noMark : StartsNowhere StartsMark piece (comment.written ++ later.written ++ rest))
      (isWhole : comment.IsWholeBefore (later.written ++ rest))
      (isRead : IsReadBefore rest later) : IsReadBefore rest (.commented piece comment later)

/-- A comment without an end is the last one, and nothing is left after it. -/
theorem IsReadBefore.of_not_isClosed {parted : PartedText} {rest : List Char}
    (isRead : parted.IsReadBefore rest) {before after : List WrittenComment}
    {comment : WrittenComment} (split : parted.comments = before ++ comment :: after)
    (isOpen : comment.isClosed = false) : after = [] ∧ rest = [] := by
  induction isRead generalizing before with
  | plain => exact absurd split.symm (by simp [comments])
  | @commented piece first later _ isWhole _ ih =>
      cases before with
      | cons _ before => exact ih (List.cons.inj split).2
      | nil =>
          obtain ⟨rfl, rfl⟩ := List.cons.inj split
          have nothing := isWhole.ends.resolve_left (by simp [isOpen])
          obtain ⟨noMore, nothing⟩ := List.append_eq_nil_iff.mp nothing
          refine ⟨?_, nothing⟩
          -- Any further comment would be written with its opener.
          cases later with
          | plain => rfl
          | commented => simp [written, WrittenComment.written, Cursor.commentOpener] at noMore

end PartedText

namespace Cursor

variable {cursor : Cursor}

/-- What seeking looks for starts at no place that is passed over. -/
theorem Passes.startsNowhere {halts : Cursor → Bool} {starts : List Char → Prop} {text : List Char}
    (passes : Passes text cursor (cursor.seek halts))
    (decides : ∀ place : Cursor, starts place.ahead → halts place) :
    StartsNowhere starts text (cursor.seek halts).ahead := by
  rintro before after rfl nonempty started
  obtain ⟨place, passed, later⟩ := passes.exists_split
  obtain ⟨character, rest, rfl⟩ := List.exists_cons_of_ne_nil nonempty
  have halted := decides place (later.ahead_eq ▸ started)
  rw [passes.not_halts rfl passed] at halted
  cases halted

theorem endsTextPiece_of_startsMark (isMark : StartsMark cursor.ahead) : cursor.endsTextPiece := by
  generalize ahead : cursor.ahead = text at isMark
  rw [endsTextPiece, Bool.or_eq_true, Bool.or_eq_true]
  cases isMark with
  | comment => exact .inr (by simp [isCommentAhead, startsWith, ahead, commentOpener])
  | openingTag starts =>
      refine .inl (.inl ?_)
      simp [isOpeningTagAhead, isOn_of_ahead_cons ahead, peek?, ahead, starts]
  | closingTag => exact .inl (.inr (by simp [isClosingTagAhead, startsWith, ahead, closingTagOpener]))

/-- What is passed over as a comment is a comment. -/
theorem exists_writtenComment (isComment : cursor.isCommentAhead) : ∃ comment : WrittenComment,
    Passes comment.written cursor cursor.skipComment ∧
      comment.IsWholeBefore cursor.skipComment.ahead := by
  obtain ⟨body, overBody⟩ :=
    leadsTo_seek (cursor.skip commentOpener) (·.startsWith commentCloser)
  have noCloser : StartsNowhere (commentCloser <+: ·) body cursor.commentEnd.ahead :=
    overBody.startsNowhere fun place isCloser => List.isPrefixOf_iff_prefix.mpr isCloser
  have opened := (passes_skip isComment).trans overBody
  rcases ahead_seek_eq_nil_or_halts (cursor.skip commentOpener) (·.startsWith commentCloser) with
    atEnd | atCloser
  · have stays : cursor.skipComment = cursor.commentEnd := by
      show cursor.commentEnd.skip commentCloser = _
      have ahead : cursor.commentEnd.ahead = [] := atEnd
      rw [skip, startsWith, ahead]
      rfl
    rw [stays]
    refine ⟨⟨body, false⟩, ?_, noCloser, .inr atEnd⟩
    rw [WrittenComment.written, WrittenComment.closing, if_neg Bool.false_ne_true, List.append_nil]
    exact opened
  · have overCloser : Passes commentCloser cursor.commentEnd cursor.skipComment :=
      passes_skip atCloser
    refine ⟨⟨body, true⟩, opened.trans overCloser, ?_, .inl rfl⟩
    rw [overCloser.ahead_eq] at noCloser
    exact noCloser

theorem exists_partedText (cursor : Cursor) : ∃ parted : PartedText,
    Passes parted.written cursor cursor.readTextPieces.2 ∧
      parted.IsReadBefore cursor.readTextPieces.2.ahead ∧
        cursor.readTextPieces.1 = parted.text := by
  fun_induction readTextPieces cursor with
  | case1 cursor pieceEnd piece isComment later ih =>
      obtain ⟨rest, overRest, isRead, isText⟩ := ih
      obtain ⟨text, passes⟩ := leadsTo_seek cursor endsTextPiece
      obtain ⟨comment, overComment, isWhole⟩ := exists_writtenComment isComment
      have noMark := passes.startsNowhere fun place => endsTextPiece_of_startsMark
      have isPiece : piece = text := passes.textSince_eq
      rw [overComment.ahead_eq, overRest.ahead_eq] at noMark
      rw [overRest.ahead_eq] at isWhole
      refine ⟨.commented text comment rest, (passes.trans overComment).trans overRest, ?_, ?_⟩
      · exact .commented (by rwa [List.append_assoc]) isWhole isRead
      · rw [isPiece, isText]
        rfl
  | case2 cursor pieceEnd piece notComment =>
      obtain ⟨text, passes⟩ := leadsTo_seek cursor endsTextPiece
      have noMark := passes.startsNowhere fun place => endsTextPiece_of_startsMark
      exact ⟨.plain text, passes, .plain noMark, passes.textSince_eq⟩

theorem standsBefore_textEnd (atTag : cursor.IsAtTag) : cursor.textEnd.StandsBefore cursor.ahead := by
  unfold textEnd
  split
  · next isOpening =>
      obtain ⟨first, rest, ahead, starts⟩ := exists_ahead_of_isOpeningTagAhead isOpening
      rw [ahead]
      exact .openingTag starts
  · next notOpening =>
      split
      · next isClosing =>
          obtain ⟨rest, ahead⟩ := List.isPrefixOf_iff_prefix.mp isClosing
          rw [← ahead]
          exact .closingTag
      · next notClosing =>
          rw [atTag.resolve_right (by simp [notOpening, notClosing])]
          exact .endOfInput

/-- A text run takes from the source what its pieces and the comments between them are written as, says
what the pieces say, and tells what stands after it.  Only its last comment may be without an end, and
then the source is at its end. -/
theorem readText_partedText (cursor : Cursor) : ∃ parted : PartedText,
    Passes parted.written cursor cursor.readText.2 ∧
    parted.IsReadBefore cursor.readText.2.ahead ∧
    cursor.readText.1.text.toList = parted.text ∧
    cursor.readText.1.ending.StandsBefore cursor.readText.2.ahead ∧
    ∀ before comment after, parted.comments = before ++ comment :: after →
      comment.isClosed = false → after = [] ∧ cursor.readText.1.ending = .endOfInput := by
  obtain ⟨parted, passes, isRead, isText⟩ := exists_partedText cursor
  have ends : cursor.readText.1.ending.StandsBefore cursor.readText.2.ahead :=
    standsBefore_textEnd (isAtTag_readText cursor)
  refine ⟨parted, passes, isRead, ?_, ends, ?_⟩
  · rw [← isText]
    exact String.toList_ofList
  · intro before comment after split isOpen
    obtain ⟨isLast, nothing⟩ := isRead.of_not_isClosed split isOpen
    exact ⟨isLast, TextEnd.StandsBefore.eq_endOfInput (nothing ▸ ends)⟩

end Cursor

end TemplateMarkup
