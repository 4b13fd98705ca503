import TemplateMarkup.Markup.TagReader

/-!
# Raw bodies

The body of an element that is read as text rather than as markup.  It ends at the closing tag of its
element.  In a script or a style sheet a closing tag inside a string literal does not count; in any
other raw body an inner element of the same name has its own closing tag.
-/

namespace TemplateMarkup

open CharacterClass

/-- How the end of a raw body is found. -/
inductive RawKind where
  /-- Inner elements of the same name are matched with their closing tags. -/
  | nested
  /-- String literals of a script hide closing tags. -/
  | script
  /-- String literals of a style sheet hide closing tags. -/
  | style
  deriving DecidableEq, Repr

namespace RawKind

def isQuote : RawKind → Char → Bool
  | .nested, _ => false
  | .script, character => isScriptQuote character
  | .style, character => isStyleQuote character

end RawKind

/-- A raw body as it is written. -/
structure RawBody where
  text : String
  /-- Where the body starts, directly after the opening tag. -/
  position : Position
  deriving DecidableEq, Repr

namespace Cursor

/-- A tag of exactly the given name is ahead: its opener, the name, and then white space, `>`, `/` or
the end of the input. -/
def isNamedTagAhead (cursor : Cursor) (opener name : List Char) : Bool :=
  cursor.startsWith (opener ++ name) &&
    ((cursor.ahead.drop (opener ++ name).length).head?.all fun character =>
      isWhitespace character || character == '>' || character == '/')

/-- The line break ahead is escaped and so part of a string literal.  A line feed after a carriage
return belongs to it. -/
def continuesLine (cursor : Cursor) : Bool :=
  (cursor.isOn (· == '\n') && cursor.previous? == some '\r') || cursor.isEscaped

/-- A string literal opened by the quote ends with the character ahead: at the same quote, or at a
line break, unless escaped.  A line break does not end a literal in backticks. -/
def endsLiteral (cursor : Cursor) (quote : Char) : Bool :=
  (cursor.isOn (· == quote) && !cursor.isEscaped) ||
    (quote != '`' && cursor.isOn isLineBreak && !cursor.continuesLine)

/-- Read on to the closing tag that ends a raw body.  The text ahead bounds the number of steps; the
depth counts the inner elements of the same name, and a quote says which literal is open. -/
def seekBodyEnd (kind : RawKind) (name : List Char) :
    List Char → Nat → Option Char → Cursor → Cursor
  | [], _, _, cursor => cursor
  | _ :: rest, depth, some quote, cursor =>
      seekBodyEnd kind name rest depth (if cursor.endsLiteral quote then none else some quote)
        cursor.advance
  | character :: rest, depth, none, cursor =>
      if kind.isQuote character then
        seekBodyEnd kind name rest depth (some character) cursor.advance
      else if cursor.isNamedTagAhead closingTagOpener name then
        match depth with
        | 0 => cursor
        | outer + 1 => seekBodyEnd kind name rest outer none cursor.advance
      else if kind = .nested ∧ cursor.isNamedTagAhead ['<'] name then
        seekBodyEnd kind name rest (depth + 1) none cursor.advance
      else
        seekBodyEnd kind name rest depth none cursor.advance

/-- Read a raw body and the closing tag that ends it. -/
def readRawBody (cursor : Cursor) (kind : RawKind) (name : List Char) : RawBody × Cursor :=
  let bodyEnd := seekBodyEnd kind name cursor.ahead 0 none cursor
  (⟨String.ofList (bodyEnd.textSince cursor.offset), cursor.position⟩, bodyEnd.readClosingTag.2)

theorem remaining_seekBodyEnd_le (kind : RawKind) (name bound : List Char) (depth : Nat)
    (quote : Option Char) (cursor : Cursor) :
    (seekBodyEnd kind name bound depth quote cursor).remaining ≤ cursor.remaining := by
  fun_induction seekBodyEnd kind name bound depth quote cursor with
  | case1 => exact Nat.le_refl _
  | case2 _ _ _ _ _ ih => exact Nat.le_trans ih (remaining_advance_le _)
  | case3 _ _ _ _ _ ih => exact Nat.le_trans ih (remaining_advance_le _)
  | case4 => exact Nat.le_refl _
  | case5 _ _ _ _ _ _ ih => exact Nat.le_trans ih (remaining_advance_le _)
  | case6 _ _ _ _ _ _ _ ih => exact Nat.le_trans ih (remaining_advance_le _)
  | case7 _ _ _ _ _ _ _ ih => exact Nat.le_trans ih (remaining_advance_le _)

theorem remaining_readRawBody_le (cursor : Cursor) (kind : RawKind) (name : List Char) :
    (cursor.readRawBody kind name).2.remaining ≤ cursor.remaining :=
  Nat.le_trans (remaining_readClosingTag_le _) (remaining_seekBodyEnd_le _ _ _ _ _ _)

end Cursor

end TemplateMarkup
