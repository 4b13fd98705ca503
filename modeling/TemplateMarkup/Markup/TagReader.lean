import TemplateMarkup.Markup.Attribute
import TemplateMarkup.Markup.TextRun

/-!
# Opening and closing tags

A tag runs up to the next `>` that is no part of an attribute value, or to the end of the input.
-/

namespace TemplateMarkup

open CharacterClass

/-- A tag that opens an element, with the bytes it takes. -/
structure OpeningTag where
  tag : Tag
  /-- The tag ends in `/>`. -/
  isSelfClosing : Bool
  span : Span
  deriving DecidableEq, Repr

/-- A tag that closes an element, with the bytes it takes. -/
structure ClosingTag where
  name : String
  position : Position
  span : Span
  deriving DecidableEq, Repr

namespace Cursor

def readName (cursor : Cursor) : List Char × Cursor :=
  let afterName := cursor.skipWhile isNameCharacter
  (afterName.textSince cursor.offset, afterName)

/-- Read the end of an opening tag, and whatever stands before it. -/
def skipTagEnd (cursor : Cursor) : Cursor :=
  if cursor.isSelfClosingEndAhead then advanceBy 2 cursor else cursor.skipPast '>'

def readOpeningTag (cursor : Cursor) : OpeningTag × Cursor :=
  let name := (cursor.skip ['<']).readName
  let attributes := name.2.readAttributes
  let afterTag := attributes.2.skipTagEnd
  let tag : Tag :=
    { name := String.ofList name.1
      attributes := attributes.1.filterMap Attribute.plain?
      directives := attributes.1.filterMap Attribute.directive?
      position := cursor.position }
  (⟨tag, attributes.2.isSelfClosingEndAhead, afterTag.spanSince cursor.offset⟩, afterTag)

/-- Read a closing tag.  Whatever stands after its name is passed over. -/
def readClosingTag (cursor : Cursor) : ClosingTag × Cursor :=
  let name := (cursor.skip closingTagOpener).readName
  let afterTag := name.2.skipPast '>'
  (⟨String.ofList name.1, cursor.position, afterTag.spanSince cursor.offset⟩, afterTag)

theorem remaining_skipTagEnd_le (cursor : Cursor) :
    cursor.skipTagEnd.remaining ≤ cursor.remaining := by
  unfold skipTagEnd
  split
  · rw [remaining_advanceBy]
    omega
  · exact remaining_skipPast_le _ _

theorem remaining_readOpeningTag_lt {cursor : Cursor} (isAhead : cursor.isOpeningTagAhead) :
    cursor.readOpeningTag.2.remaining < cursor.remaining := by
  have angle : cursor.startsWith ['<'] := by
    have isOn : cursor.isOn (· == '<') := (Bool.and_eq_true _ _ ▸ isAhead).1
    unfold Cursor.isOn current? at isOn
    unfold startsWith
    cases ahead : cursor.ahead with
    | nil => simp [ahead] at isOn
    | cons character rest =>
        have same : character = '<' := by simpa [ahead] using isOn
        simp [same]
  refine Nat.lt_of_le_of_lt (remaining_skipTagEnd_le _) ?_
  refine Nat.lt_of_le_of_lt (remaining_readAttributes_le _) ?_
  exact Nat.lt_of_le_of_lt (remaining_skipWhile_le _ _) (remaining_skip_lt angle (by decide))

theorem remaining_readClosingTag_le (cursor : Cursor) :
    cursor.readClosingTag.2.remaining ≤ cursor.remaining :=
  Nat.le_trans (remaining_skipPast_le _ _)
    (Nat.le_trans (remaining_skipWhile_le _ _) (remaining_skip_le _ _))

theorem remaining_readClosingTag_lt {cursor : Cursor} (isAhead : cursor.isClosingTagAhead) :
    cursor.readClosingTag.2.remaining < cursor.remaining := by
  refine Nat.lt_of_le_of_lt (remaining_skipPast_le _ _) ?_
  exact Nat.lt_of_le_of_lt (remaining_skipWhile_le _ _) (remaining_skip_lt isAhead (by decide))

end Cursor

end TemplateMarkup
