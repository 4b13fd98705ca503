import TemplateMarkup.Document.Basic
import TemplateMarkup.Source.CursorProgress
import TemplateMarkup.Text.Expression

/-!
# Attributes

The attributes of an opening tag, read up to the end of the tag.  Between attributes everything that
cannot start a name is passed over.  A value stands after an equals sign and is quoted or runs to the
next character that no value holds.
-/

namespace TemplateMarkup

open CharacterClass

/-- An attribute of either kind, in the order of the source. -/
inductive Attribute where
  | plain (written : StaticAttribute)
  | directive (written : Directive)
  deriving DecidableEq, Repr

namespace Attribute

def plain? : Attribute → Option StaticAttribute
  | .plain written => some written
  | .directive _ => none

def directive? : Attribute → Option Directive
  | .plain _ => none
  | .directive written => some written

/-- The name and modifier written after a `#`: the first colon divides them. -/
def splitModifier (written : List Char) : String × Option String :=
  let name := String.ofList (written.takeWhile (· != ':'))
  match written.dropWhile (· != ':') with
  | [] => (name, none)
  | _ :: modifier => (name, some (String.ofList modifier))

/-- The directive written with a sigil, a colon or a hash sign, before its name. -/
def directiveOf (sigil : Char) (written : List Char) (value : Option (List Char))
    (position : Position) : Directive :=
  let named :=
    if sigil == ':' then
      (Directive.bindingName, if written.isEmpty then none else some (String.ofList written))
    else
      splitModifier written
  let flags := (value.map Expression.classify).getD ⟨false, false⟩
  { name := named.1
    modifier := named.2
    value := value.map String.ofList
    referencesProps := flags.referencesProps
    isAsync := flags.isAsync
    position }

end Attribute

namespace Cursor

/-- Read up to a quote that is not escaped, and past it.  The quote is not part of the value. -/
def readQuotedValue (cursor : Cursor) (quote : Char) : List Char × Cursor :=
  let closing := cursor.seek fun place => place.isOn (· == quote) && !place.isEscaped
  (closing.textSince cursor.offset, closing.advance)

/-- The end `/>` of a self-closing tag is ahead. -/
def isSelfClosingEndAhead (cursor : Cursor) : Bool := cursor.startsWith "/>".toList

/-- Read a value up to a character that no value holds, or to `/>`. -/
def readUnquotedValue (cursor : Cursor) : List Char × Cursor :=
  let ending := cursor.seek fun place =>
    place.isSelfClosingEndAhead || !place.isOn isUnquotedValueCharacter
  (ending.textSince cursor.offset, ending)

/-- Read the value after an equals sign.  There is none at the end of the input.  A backtick is a
quote only if that is allowed. -/
def readAttributeValue (cursor : Cursor) (backtickQuotes : Bool) :
    Option (List Char) × Cursor :=
  match cursor.current? with
  | none => (none, cursor)
  | some character =>
      let read :=
        if isQuote character && (character != '`' || backtickQuotes) then
          cursor.advance.readQuotedValue character
        else
          cursor.readUnquotedValue
      (some read.1, read.2)

/-- Read the value of an attribute whose name has been read, if an equals sign follows. -/
def readAssignedValue (cursor : Cursor) (backtickQuotes : Bool) :
    Option (List Char) × Cursor :=
  let afterName := cursor.skipWhitespace
  if afterName.startsWith ['='] then
    afterName.advance.skipWhitespace.readAttributeValue backtickQuotes
  else
    (none, afterName)

def sigil? (cursor : Cursor) : Option Char :=
  cursor.current?.filter fun character => character == ':' || character == '#'

def readAttribute (cursor : Cursor) : Attribute × Cursor :=
  match cursor.sigil? with
  | none =>
      let afterName := cursor.skipWhile isNameCharacter
      let value := afterName.readAssignedValue false
      let name := String.ofList (afterName.textSince cursor.offset)
      (.plain ⟨name, value.1.map String.ofList, cursor.position⟩, value.2)
  | some sigil =>
      let afterName := cursor.advance.skipWhile isNameCharacter
      let value := afterName.readAssignedValue true
      let written := afterName.textSince cursor.advance.offset
      (.directive (Attribute.directiveOf sigil written value.1 cursor.position), value.2)

def isTagEndAhead (cursor : Cursor) : Bool :=
  cursor.isOn (· == '>') || cursor.isSelfClosingEndAhead

/-- Pass over everything that neither starts an attribute nor ends the tag. -/
def skipToAttribute (cursor : Cursor) : Cursor :=
  cursor.seek fun place => place.isOn isNameCharacter || place.isTagEndAhead

theorem remaining_readQuotedValue_le (cursor : Cursor) (quote : Char) :
    (cursor.readQuotedValue quote).2.remaining ≤ cursor.remaining :=
  Nat.le_trans (remaining_advance_le _) (remaining_seek_le _ _)

theorem remaining_readUnquotedValue_le (cursor : Cursor) :
    cursor.readUnquotedValue.2.remaining ≤ cursor.remaining :=
  remaining_seek_le _ _

theorem remaining_readAttributeValue_le (cursor : Cursor) (backtickQuotes : Bool) :
    (cursor.readAttributeValue backtickQuotes).2.remaining ≤ cursor.remaining := by
  unfold readAttributeValue
  split
  · exact Nat.le_refl _
  · simp only
    split
    · exact Nat.le_trans (remaining_readQuotedValue_le _ _) (remaining_advance_le _)
    · exact remaining_readUnquotedValue_le _

theorem remaining_readAssignedValue_le (cursor : Cursor) (backtickQuotes : Bool) :
    (cursor.readAssignedValue backtickQuotes).2.remaining ≤ cursor.remaining := by
  unfold readAssignedValue
  simp only
  split
  · refine Nat.le_trans (remaining_readAttributeValue_le _ _) ?_
    refine Nat.le_trans (remaining_skipWhitespace_le _) ?_
    exact Nat.le_trans (remaining_advance_le _) (remaining_skipWhitespace_le _)
  · exact remaining_skipWhitespace_le _

/-- Reading an attribute takes at least the character it starts with. -/
theorem remaining_readAttribute_lt {cursor : Cursor} (isOn : cursor.isOn isNameCharacter) :
    cursor.readAttribute.2.remaining < cursor.remaining := by
  unfold readAttribute
  split
  · exact Nat.lt_of_le_of_lt (remaining_readAssignedValue_le _ _) (remaining_skipWhile_lt isOn)
  · refine Nat.lt_of_le_of_lt (remaining_readAssignedValue_le _ _) ?_
    exact Nat.lt_of_le_of_lt (remaining_skipWhile_le _ _)
      (remaining_advance_lt (ahead_ne_nil_of_isOn isOn))

/-- Read attributes up to the end of the tag, which is not read. -/
def readAttributes (cursor : Cursor) : List Attribute × Cursor :=
  let place := cursor.skipToAttribute
  if _ : place.isOn isNameCharacter then
    let first := place.readAttribute
    let later := first.2.readAttributes
    (first.1 :: later.1, later.2)
  else
    ([], place)
termination_by cursor.remaining
decreasing_by
  exact Nat.lt_of_lt_of_le (remaining_readAttribute_lt (by assumption)) (remaining_seek_le _ _)

theorem remaining_readAttributes_le (cursor : Cursor) :
    cursor.readAttributes.2.remaining ≤ cursor.remaining := by
  unfold readAttributes
  simp only
  split
  · next isOn =>
      have shorter : cursor.skipToAttribute.readAttribute.2.remaining < cursor.remaining :=
        Nat.lt_of_lt_of_le (remaining_readAttribute_lt isOn) (remaining_seek_le _ _)
      exact Nat.le_trans (remaining_readAttributes_le _) (Nat.le_of_lt shorter)
  · exact remaining_seek_le _ _
termination_by cursor.remaining

end Cursor

end TemplateMarkup
