import TemplateMarkup.Source.CursorProgress

/-!
# Text runs

The text between two tags.  A run goes on over characters that only look like a tag and over comments,
which leave nothing in its text.  A comment without an end goes to the end of the input.
-/

namespace TemplateMarkup

open CharacterClass

/-- What stands after a text run. -/
inductive TextEnd where
  | openingTag
  | closingTag
  | endOfInput
  deriving DecidableEq, Repr

/-- The text up to the next tag, without comments. -/
structure TextRun where
  text : String
  ending : TextEnd
  /-- Where the run starts, white space and comments included. -/
  position : Position
  deriving DecidableEq, Repr

namespace Cursor

def commentOpener : List Char := "<!--".toList

def commentCloser : List Char := "-->".toList

def closingTagOpener : List Char := "</".toList

/-- An opening tag is `<` and the first character of a tag name. -/
def isOpeningTagAhead (cursor : Cursor) : Bool :=
  cursor.isOn (· == '<') && (cursor.peek? 1).any startsTagName

/-- A closing tag is `</`, whatever follows. -/
def isClosingTagAhead (cursor : Cursor) : Bool := cursor.startsWith closingTagOpener

/-- A comment is `<!--`, whatever follows. -/
def isCommentAhead (cursor : Cursor) : Bool := cursor.startsWith commentOpener

/-- Read a comment up to and including the first `-->` after its opener. -/
def skipComment (cursor : Cursor) : Cursor :=
  ((cursor.skip commentOpener).seek (·.startsWith commentCloser)).skip commentCloser

theorem remaining_skipComment_lt {cursor : Cursor} (isAhead : cursor.isCommentAhead) :
    cursor.skipComment.remaining < cursor.remaining :=
  Nat.lt_of_le_of_lt (remaining_skip_le _ _)
    (Nat.lt_of_le_of_lt (remaining_seek_le _ _) (remaining_skip_lt isAhead (by decide)))

def endsTextPiece (cursor : Cursor) : Bool :=
  cursor.isOpeningTagAhead || cursor.isClosingTagAhead || cursor.isCommentAhead

/-- Read text up to the next tag, leaving comments out. -/
def readTextPieces (cursor : Cursor) : List Char × Cursor :=
  let pieceEnd := cursor.seek endsTextPiece
  let piece := pieceEnd.textSince cursor.offset
  if _ : pieceEnd.isCommentAhead then
    let later := pieceEnd.skipComment.readTextPieces
    (piece ++ later.1, later.2)
  else
    (piece, pieceEnd)
termination_by cursor.remaining
decreasing_by
  exact Nat.lt_of_lt_of_le (remaining_skipComment_lt (by assumption)) (remaining_seek_le _ _)

/-- What stands at a cursor that has read a text run. -/
def textEnd (cursor : Cursor) : TextEnd :=
  if cursor.isOpeningTagAhead then .openingTag
  else if cursor.isClosingTagAhead then .closingTag
  else .endOfInput

def readText (cursor : Cursor) : TextRun × Cursor :=
  let pieces := cursor.readTextPieces
  (⟨String.ofList pieces.1, pieces.2.textEnd, cursor.position⟩, pieces.2)

theorem remaining_readTextPieces_le (cursor : Cursor) :
    cursor.readTextPieces.2.remaining ≤ cursor.remaining := by
  unfold readTextPieces
  simp only
  split
  · next isComment =>
      have shorter : (cursor.seek endsTextPiece).skipComment.remaining < cursor.remaining :=
        Nat.lt_of_lt_of_le (remaining_skipComment_lt isComment) (remaining_seek_le _ _)
      exact Nat.le_trans (remaining_readTextPieces_le _) (Nat.le_of_lt shorter)
  · exact remaining_seek_le _ _
termination_by cursor.remaining

theorem remaining_readText_le (cursor : Cursor) :
    cursor.readText.2.remaining ≤ cursor.remaining :=
  remaining_readTextPieces_le cursor

end Cursor

end TemplateMarkup
