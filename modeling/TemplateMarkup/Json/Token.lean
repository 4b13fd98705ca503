/-!
# Tokens of the JSON format

A text as a list of brackets, separators and scalars.  What is no token ends the list as an invalid
one.  Two faults of scalars are kept in the token, because they matter only if the scalar is used: a
string in which half of a surrogate pair is escaped has no text, and a number may be out of range.
-/

namespace TemplateMarkup

/-- What matters of a number. -/
inductive JsonNumber where
  /-- Digits alone that fit into 64 bits. -/
  | natural (value : Nat)
  /-- A number with a sign, a fraction, an exponent, or more digits. -/
  | other
  /-- A number that is infinite in doubles. -/
  | outOfRange
  deriving DecidableEq, Repr

/-- A token of the format. -/
inductive JsonToken where
  | openArray
  | closeArray
  | openObject
  | closeObject
  | comma
  | colon
  | null
  | bool (value : Bool)
  | number (value : JsonNumber)
  | string (text : Option String)
  | invalid
  deriving DecidableEq, Repr

namespace JsonToken

def isSpace (character : Char) : Bool :=
  character == ' ' || character == '\n' || character == '\t' || character == '\r'

/-- A piece of a string: a character, or a code unit of four hexadecimal digits. -/
inductive StringPiece where
  | character (value : Char)
  | codeUnit (value : Nat)
  deriving DecidableEq, Repr

/-- The value of a hexadecimal digit of either case. -/
def hexValue? (character : Char) : Option Nat :=
  if character.isDigit then some (character.toNat - '0'.toNat)
  else if 'a' ≤ character ∧ character ≤ 'f' then some (character.toNat - 'a'.toNat + 10)
  else if 'A' ≤ character ∧ character ≤ 'F' then some (character.toNat - 'A'.toNat + 10)
  else none

def codeUnit? (first second third fourth : Char) : Option Nat := do
  let first ← hexValue? first
  let second ← hexValue? second
  let third ← hexValue? third
  let fourth ← hexValue? fourth
  return ((first * 16 + second) * 16 + third) * 16 + fourth

/-- The character that an escape of one letter stands for. -/
def unescape? (letter : Char) : Option Char :=
  match letter with
  | '"' => some '"'
  | '\\' => some '\\'
  | '/' => some '/'
  | 'b' => some '\x08'
  | 'f' => some '\x0c'
  | 'n' => some '\n'
  | 'r' => some '\r'
  | 't' => some '\t'
  | _ => none

/-- Read the pieces of a string up to and including its closing quote.  The pieces are taken latest
first. -/
def readPieces? (taken : List StringPiece) : List Char → Option (List StringPiece × List Char)
  | [] => none
  | '"' :: rest => some (taken.reverse, rest)
  | '\\' :: 'u' :: first :: second :: third :: fourth :: rest =>
      match codeUnit? first second third fourth with
      | none => none
      | some value => readPieces? (.codeUnit value :: taken) rest
  | '\\' :: letter :: rest =>
      match unescape? letter with
      | none => none
      | some character => readPieces? (.character character :: taken) rest
  | character :: rest =>
      if character < ' ' || character == '\\' then none
      else readPieces? (.character character :: taken) rest

def isHighSurrogate (value : Nat) : Bool := 0xD800 ≤ value && value ≤ 0xDBFF

def isLowSurrogate (value : Nat) : Bool := 0xDC00 ≤ value && value ≤ 0xDFFF

/-- The characters of string pieces, unless half of a surrogate pair stands alone.  The characters are
taken latest first. -/
def joinPieces? (taken : List Char) : List StringPiece → Option (List Char)
  | [] => some taken.reverse
  | .character value :: rest => joinPieces? (value :: taken) rest
  | .codeUnit high :: .codeUnit low :: rest =>
      if isHighSurrogate high then
        if isLowSurrogate low then
          let codePoint := 0x10000 + (high - 0xD800) * 0x400 + (low - 0xDC00)
          joinPieces? (Char.ofNat codePoint :: taken) rest
        else
          none
      else if isLowSurrogate high then none
      else joinPieces? (Char.ofNat high :: taken) (.codeUnit low :: rest)
  | .codeUnit value :: rest =>
      if isHighSurrogate value || isLowSurrogate value then none
      else joinPieces? (Char.ofNat value :: taken) rest

def readString? (text : List Char) : Option (JsonToken × List Char) :=
  match readPieces? [] text with
  | none => none
  | some (pieces, rest) => some (.string ((joinPieces? [] pieces).map String.ofList), rest)

/-- Take up digits as long as the number they make fits into 64 bits.  The result is the number and the
digits that are left over. -/
def takeDigits (taken : Nat) : List Char → Nat × List Char
  | [] => (taken, [])
  | digit :: rest =>
      let next := 10 * taken + (digit.toNat - '0'.toNat)
      if next < UInt64.size then takeDigits next rest else (taken, digit :: rest)

/-- The number nearest to the given one that has no more than 53 binary digits before its zeros.  Of two
such numbers the one with an even last digit counts. -/
def nearestDouble (value : Nat) : Nat :=
  let unit := Nat.pow 2 (Nat.log2 value + 1 - 53)
  let below := value / unit
  let remainder := value % unit
  if unit < 2 * remainder || (unit == 2 * remainder && below % 2 == 1) then (below + 1) * unit
  else below * unit

/-- The least number that is nearer to infinity than to the largest double. -/
def rangeLimit : Nat := Nat.pow 2 1024 - Nat.pow 2 970

/-- The largest power of ten that is a double. -/
def largestPower : Nat := 308

/-- A number times a power of ten is out of range if it is infinite in doubles: the number and the power
are rounded each, and their product is rounded again. -/
def isOutOfRange (value : Nat) (exponent : Int) : Bool :=
  if value == 0 || exponent < 0 then false
  else if (largestPower : Int) < exponent then true
  else nearestDouble value * nearestDouble (Nat.pow 10 exponent.toNat) ≥ rangeLimit

/-- The text after a sign, or the whole text if it starts with none of the given signs. -/
def dropSign (signs text : List Char) : List Char :=
  if text.head?.any signs.contains then text.tail else text

def readDigits? (text : List Char) : Option (List Char × List Char) :=
  let digits := text.takeWhile Char.isDigit
  if digits.isEmpty then none else some (digits, text.dropWhile Char.isDigit)

/-- Read an integer part: digits without a needless zero in front. -/
def readInteger? (text : List Char) : Option (List Char × List Char) :=
  (readDigits? text).filter fun (digits, _) => digits.head? != some '0' || digits.length == 1

/-- Read the digits of a fraction, if there is one. -/
def readFraction? (text : List Char) : Option (List Char × List Char) :=
  match text with
  | '.' :: rest => readDigits? rest
  | _ => some ([], text)

def readExponent? (text : List Char) : Option (Option Int × List Char) :=
  if text.head?.any ['e', 'E'].contains then
    (readDigits? (dropSign ['-', '+'] text.tail)).map fun (digits, rest) =>
      let size : Int := Nat.ofDigitChars 10 digits 0
      (some (if text.tail.head? == some '-' then -size else size), rest)
  else
    some (none, text)

/-- What matters of a number of the given parts.  Digits beyond 64 bits count by their number only. -/
def classifyNumber (isNegative : Bool) (integer fraction : List Char) (exponent : Option Int) :
    JsonNumber :=
  let (whole, uncounted) := takeDigits 0 integer
  let (value, ignored) := takeDigits whole fraction
  let scale : Int := fraction.length - ignored.length
  if isOutOfRange value (exponent.getD 0 + uncounted.length - scale) then .outOfRange
  else if isNegative || !uncounted.isEmpty || !fraction.isEmpty || exponent.isSome then .other
  else .natural whole

def readNumber? (text : List Char) : Option (JsonToken × List Char) :=
  match readInteger? (dropSign ['-'] text) with
  | none => none
  | some (integer, afterInteger) =>
      match readFraction? afterInteger with
      | none => none
      | some (fraction, afterFraction) =>
          match readExponent? afterFraction with
          | none => none
          | some (exponent, rest) =>
              some (.number (classifyNumber (text.head? == some '-') integer fraction exponent), rest)

/-- The rest of a text that begins as given. -/
def afterWord? (word text : List Char) : Option (List Char) :=
  if word.isPrefixOf text then some (text.drop word.length) else none

/-- Read one token at the start of a text that does not start with white space. -/
def read? (text : List Char) : Option (JsonToken × List Char) :=
  match text with
  | [] => none
  | '[' :: rest => some (.openArray, rest)
  | ']' :: rest => some (.closeArray, rest)
  | '{' :: rest => some (.openObject, rest)
  | '}' :: rest => some (.closeObject, rest)
  | ',' :: rest => some (.comma, rest)
  | ':' :: rest => some (.colon, rest)
  | '"' :: rest => readString? rest
  | 'n' :: rest => (afterWord? "ull".toList rest).map fun rest => (.null, rest)
  | 't' :: rest => (afterWord? "rue".toList rest).map fun rest => (.bool true, rest)
  | 'f' :: rest => (afterWord? "alse".toList rest).map fun rest => (.bool false, rest)
  | _ => readNumber? text

end JsonToken

end TemplateMarkup
