import TemplateMarkup.Text.Whitespace

/-!
# Positions and spans

A position is a line and a column of a source text, both counted from one.  Columns count characters.
The written form is `line:column`; reading accepts blanks around either number, a plus sign before it
and leading zeros, and refuses numbers outside the range of a 32-bit word.  Blanks are the characters
that Unicode calls white space, a larger class than the white space of the markup itself.

Lines and columns are counted with natural numbers: the overflow of a 32-bit word, in a source with more
lines or columns than it can count, is left out.  A span is a half-open range of byte offsets.  Its
offsets are 32-bit words, so a wider offset keeps its low bits.
-/

namespace TemplateMarkup

/-- The twenty-five characters with the Unicode property White_Space. -/
def isBlank (character : Char) : Bool :=
  let code := character.toNat
  (0x0009 ≤ code && code ≤ 0x000D) || code == 0x0020 || code == 0x0085 || code == 0x00A0 ||
    code == 0x1680 || (0x2000 ≤ code && code ≤ 0x200A) || code == 0x2028 || code == 0x2029 ||
    code == 0x202F || code == 0x205F || code == 0x3000

/-- A line and a column, both counted from one. -/
structure Position where
  line : Nat
  column : Nat
  deriving DecidableEq, Repr

namespace Position

/-- The place of the first character of a file. -/
def start : Position := ⟨1, 1⟩

instance : Inhabited Position := ⟨start⟩

def nextColumn (position : Position) : Position :=
  { position with column := position.column + 1 }

/-- The first column of the following line. -/
def nextLine (position : Position) : Position :=
  ⟨position.line + 1, 1⟩

/-- Positions are ordered by line and then by column. -/
instance : Ord Position where
  compare first second :=
    (compare first.line second.line).then (compare first.column second.column)

/-- The written form `line:column`. -/
def render (position : Position) : String :=
  toString position.line ++ ":" ++ toString position.column

/-- The largest line or column that can be read. -/
def largestCoordinate : Nat := UInt32.size - 1

/-- One or more decimal digits, after at most one plus sign, whose value is between one and the
largest coordinate. -/
def readCoordinate? (text : List Char) : Option Nat :=
  let digits :=
    match text with
    | '+' :: rest => rest
    | _ => text
  let value := Nat.ofDigitChars 10 digits 0
  if !digits.isEmpty && digits.all Char.isDigit && 0 < value && value ≤ largestCoordinate then
    some value
  else
    none

/-- Read the written form.  The first colon separates the two numbers. -/
def read? (text : String) : Option Position :=
  let line := text.toList.takeWhile (· != ':')
  match text.toList.dropWhile (· != ':') with
  | [] => none
  | _ :: column => do
      let line ← readCoordinate? (trimEnds isBlank line)
      let column ← readCoordinate? (trimEnds isBlank column)
      return ⟨line, column⟩

/-- What is said of a text that is not a written position. -/
def readFailure (text : String) : String :=
  "invalid position \"" ++ text ++ "\", expected line:column"

/-- Read the written form, or say what is wrong with the text. -/
def parse (text : String) : Except String Position :=
  match read? text with
  | some position => .ok position
  | none => .error (readFailure text)

end Position

/-- The bytes from `start` up to, and without, `stop`. -/
structure Span where
  start : UInt32
  stop : UInt32
  deriving DecidableEq, Repr, Inhabited

namespace Span

/-- The span between two byte offsets of any size. -/
def between (start stop : Nat) : Span :=
  ⟨UInt32.ofNat start, UInt32.ofNat stop⟩

def emptyAt (offset : UInt32) : Span :=
  ⟨offset, offset⟩

/-- The number of bytes in a span that does not end before it starts. -/
def length (span : Span) : UInt32 :=
  span.stop - span.start

def isEmpty (span : Span) : Bool :=
  span.start == span.stop

end Span

end TemplateMarkup
