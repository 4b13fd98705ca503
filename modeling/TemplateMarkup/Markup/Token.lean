import TemplateMarkup.Markup.RawBody

/-!
# Tokens

A source as a list of text runs and tags.  There is a text run, possibly empty, before every tag and
at the end.  Whether an opening tag is followed by a raw body depends on the tag alone, so a source is
split into tokens before anything is known of the elements that are open.
-/

namespace TemplateMarkup

namespace OpeningTag

/-- How the body of the element is read, unless it is read as markup or there is none. -/
def rawKind? (opening : OpeningTag) : Option RawKind :=
  if opening.isSelfClosing || opening.tag.isVoid then none
  else if opening.tag.name == "script" then some .script
  else if opening.tag.name == "style" then some .style
  else if opening.tag.componentName?.isSome then none
  else if opening.tag.hasDirective "raw" then some .nested
  else none

end OpeningTag

/-- A piece of a source. -/
inductive Token where
  | text (run : TextRun)
  | opening (tag : OpeningTag) (body : Option RawBody)
  | closing (tag : ClosingTag)
  deriving DecidableEq, Repr

namespace Cursor

/-- Read an opening tag together with its body, if that is raw. -/
def readElementStart (cursor : Cursor) : (OpeningTag × Option RawBody) × Cursor :=
  let opening := cursor.readOpeningTag
  match opening.1.rawKind? with
  | none => ((opening.1, none), opening.2)
  | some kind =>
      let body := opening.2.readRawBody kind opening.1.tag.name.toList
      ((opening.1, some body.1), body.2)

theorem remaining_readElementStart_lt {cursor : Cursor} (isAhead : cursor.isOpeningTagAhead) :
    cursor.readElementStart.2.remaining < cursor.remaining := by
  have shorter := remaining_readOpeningTag_lt isAhead
  unfold readElementStart
  simp only
  split
  · exact shorter
  · exact Nat.lt_of_le_of_lt (remaining_readRawBody_le _ _ _) shorter

def tokens (cursor : Cursor) : List Token :=
  let run := cursor.readText
  .text run.1 ::
    if _ : run.2.isOpeningTagAhead then
      let start := run.2.readElementStart
      .opening start.1.1 start.1.2 :: start.2.tokens
    else if _ : run.2.isClosingTagAhead then
      let closing := run.2.readClosingTag
      .closing closing.1 :: closing.2.tokens
    else
      []
termination_by cursor.remaining
decreasing_by
  · exact Nat.lt_of_lt_of_le (remaining_readElementStart_lt (by assumption)) (remaining_readText_le _)
  · exact Nat.lt_of_lt_of_le (remaining_readClosingTag_lt (by assumption)) (remaining_readText_le _)

end Cursor

namespace Token

/-- Split a source whose first character stands at the given position into tokens. -/
def scan (source : String) (start : Position) : List Token :=
  (Cursor.atStart source start).tokens

end Token

end TemplateMarkup
