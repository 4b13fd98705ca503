import TemplateMarkup.Source.CharacterClass
import TemplateMarkup.Source.Position

/-!
# Cursors

A cursor stands between two characters of a source text.  It keeps what it has read, nearest
character first, and what is still ahead, together with its byte offset and its position.  Every move
is a number of single steps forward, so offset and position depend only on the characters passed.
-/

namespace TemplateMarkup

open CharacterClass

/-- Split a text after the given number of bytes.  There is no such split inside a character or
beyond the end. -/
def splitAtByte? : Nat → List Char → Option (List Char × List Char)
  | 0, text => some ([], text)
  | _ + 1, [] => none
  | bytes + 1, character :: text =>
      if character.utf8Size ≤ bytes + 1 then
        (splitAtByte? (bytes + 1 - character.utf8Size) text).map
          fun (left, right) => (character :: left, right)
      else
        none

/-- The part of a text between two byte offsets. -/
def sliceBytes? (start stop : Nat) (text : List Char) : Option (List Char) :=
  if start ≤ stop then do
    let (_, fromStart) ← splitAtByte? start text
    let (slice, _) ← splitAtByte? (stop - start) fromStart
    return slice
  else
    none

namespace Position

/-- The position after a character.  A carriage return directly before a line feed moves nothing: the
line feed ends the line. -/
def after (position : Position) (character : Char) (following : Option Char) : Position :=
  if character == '\r' && following == some '\n' then position
  else if isLineBreak character then position.nextLine
  else position.nextColumn

end Position

/-- A place in a source text. -/
structure Cursor where
  /-- The characters read so far, nearest first. -/
  behind : List Char
  /-- The characters still to be read. -/
  ahead : List Char
  /-- The number of bytes read so far. -/
  offset : Nat
  /-- Where the next character stands. -/
  position : Position
  deriving Repr

namespace Cursor

/-- The beginning of a source whose first character stands at the given position. -/
def atStart (source : String) (position : Position) : Cursor :=
  ⟨[], source.toList, 0, position⟩

def source (cursor : Cursor) : List Char :=
  cursor.behind.reverse ++ cursor.ahead

def isAtEnd (cursor : Cursor) : Bool :=
  cursor.ahead.isEmpty

def current? (cursor : Cursor) : Option Char :=
  cursor.ahead.head?

/-- The character a number of places ahead of the next one. -/
def peek? (cursor : Cursor) (distance : Nat) : Option Char :=
  cursor.ahead[distance]?

def previous? (cursor : Cursor) : Option Char :=
  cursor.behind.head?

/-- The next character exists and belongs to a class. -/
def isOn (cursor : Cursor) (belongs : Char → Bool) : Bool :=
  cursor.current?.any belongs

def startsWith (cursor : Cursor) (text : List Char) : Bool :=
  text.isPrefixOf cursor.ahead

def backslashesBehind (cursor : Cursor) : Nat :=
  (cursor.behind.takeWhile (· == '\\')).length

/-- An odd number of backslashes directly before a character takes its meaning away. -/
def isEscaped (cursor : Cursor) : Bool :=
  cursor.backslashesBehind % 2 == 1

/-- Read one character.  At the end nothing moves. -/
def advance (cursor : Cursor) : Cursor :=
  match cursor.ahead with
  | [] => cursor
  | character :: rest =>
      { behind := character :: cursor.behind
        ahead := rest
        offset := cursor.offset + character.utf8Size
        position := cursor.position.after character rest.head? }

/-- Read a number of characters, or up to the end. -/
def advanceBy : Nat → Cursor → Cursor
  | 0, cursor => cursor
  | count + 1, cursor => if cursor.isAtEnd then cursor else advanceBy count cursor.advance

def skip (cursor : Cursor) (text : List Char) : Cursor :=
  if cursor.startsWith text then advanceBy text.length cursor else cursor

/-- Read on until the condition holds.  The first argument is the text ahead, which bounds the number
of steps. -/
def seekWithin (stop : Cursor → Bool) : List Char → Cursor → Cursor
  | [], cursor => cursor
  | _ :: rest, cursor => if stop cursor then cursor else seekWithin stop rest cursor.advance

/-- Read on to the first place where the condition holds, or to the end. -/
def seek (cursor : Cursor) (stop : Cursor → Bool) : Cursor :=
  seekWithin stop cursor.ahead cursor

/-- Read on while the next character belongs to a class. -/
def skipWhile (cursor : Cursor) (belongs : Char → Bool) : Cursor :=
  cursor.seek fun place => !place.isOn belongs

def skipWhitespace (cursor : Cursor) : Cursor :=
  cursor.skipWhile isWhitespace

/-- Read on to a character, and read it as well. -/
def skipPast (cursor : Cursor) (character : Char) : Cursor :=
  (cursor.seek fun place => place.isOn (· == character)).advance

/-- Move characters off a reversed text until the given number of bytes has been moved. -/
def takeBytesBack : Nat → List Char → List Char → List Char
  | _, [], taken => taken
  | 0, _ :: _, taken => taken
  | bytes + 1, character :: rest, taken =>
      takeBytesBack (bytes + 1 - character.utf8Size) rest (character :: taken)

/-- The text read since the cursor was at an earlier byte offset. -/
def textSince (cursor : Cursor) (start : Nat) : List Char :=
  takeBytesBack (cursor.offset - start) cursor.behind []

/-- The span from an earlier byte offset to here. -/
def spanSince (cursor : Cursor) (start : Nat) : Span :=
  .between start cursor.offset

end Cursor

end TemplateMarkup
