import TemplateMarkup.Json.Basic

/-!
# Writing JSON

Two layouts of a value: on one line without spaces, and on many lines with an indent of two spaces.
A string is written as it is, apart from quotes, backslashes and control characters.  Every part is
written before a text that is already there, so that nothing is written twice.
-/

namespace TemplateMarkup

namespace Json

def hexDigit (value : Nat) : Char := Nat.digitChar value

/-- One character of a string.  Five control characters have an escape of one letter, the others are
written as four hexadecimal digits. -/
def escapeCharacter (character : Char) : List Char :=
  if character == '"' then ['\\', '"']
  else if character == '\\' then ['\\', '\\']
  else if character == '\x08' then ['\\', 'b']
  else if character == '\t' then ['\\', 't']
  else if character == '\n' then ['\\', 'n']
  else if character == '\x0c' then ['\\', 'f']
  else if character == '\r' then ['\\', 'r']
  else if character < ' ' then
    ['\\', 'u', '0', '0', hexDigit (character.toNat / 16), hexDigit (character.toNat % 16)]
  else [character]

/-- A string in quotes, before a text. -/
def writeString (text : String) (after : List Char) : List Char :=
  '"' :: (text.toList.flatMap escapeCharacter ++ '"' :: after)

def writeBool (value : Bool) (after : List Char) : List Char :=
  (if value then "true".toList else "false".toList) ++ after

mutual

def writeCompact : Json → List Char → List Char
  | null, after => "null".toList ++ after
  | bool value, after => writeBool value after
  | number value, after => Nat.toDigits 10 value ++ after
  | string text, after => writeString text after
  | array [], after => '[' :: ']' :: after
  | array (item :: rest), after => '[' :: item.writeCompact (writeCompactItems rest after)
  | object [], after => '{' :: '}' :: after
  | object ((name, value) :: rest), after =>
      '{' :: writeString name (':' :: value.writeCompact (writeCompactMembers rest after))

/-- The items after the first one and the end of the array, before a text. -/
def writeCompactItems : List Json → List Char → List Char
  | [], after => ']' :: after
  | item :: rest, after => ',' :: item.writeCompact (writeCompactItems rest after)

/-- The members after the first one and the end of the object, before a text. -/
def writeCompactMembers : List (String × Json) → List Char → List Char
  | [], after => '}' :: after
  | (name, value) :: rest, after =>
      ',' :: writeString name (':' :: value.writeCompact (writeCompactMembers rest after))

end

/-- The start of a line at a depth of nesting, before a text. -/
def writeLine (depth : Nat) (after : List Char) : List Char :=
  '\n' :: (List.replicate (2 * depth) ' ' ++ after)

mutual

/-- A value on as many lines as it has items and members, at a depth of nesting, before a text. -/
def writeIndented (depth : Nat) : Json → List Char → List Char
  | null, after => "null".toList ++ after
  | bool value, after => writeBool value after
  | number value, after => Nat.toDigits 10 value ++ after
  | string text, after => writeString text after
  | array [], after => '[' :: ']' :: after
  | array (item :: rest), after =>
      '[' :: writeLine (depth + 1)
        (item.writeIndented (depth + 1) (writeIndentedItems depth rest after))
  | object [], after => '{' :: '}' :: after
  | object ((name, value) :: rest), after =>
      '{' :: writeLine (depth + 1) (writeString name (':' :: ' ' ::
        value.writeIndented (depth + 1) (writeIndentedMembers depth rest after)))

/-- The items after the first one and the end of the array, before a text. -/
def writeIndentedItems (depth : Nat) : List Json → List Char → List Char
  | [], after => writeLine depth (']' :: after)
  | item :: rest, after =>
      ',' :: writeLine (depth + 1)
        (item.writeIndented (depth + 1) (writeIndentedItems depth rest after))

/-- The members after the first one and the end of the object, before a text. -/
def writeIndentedMembers (depth : Nat) : List (String × Json) → List Char → List Char
  | [], after => writeLine depth ('}' :: after)
  | (name, value) :: rest, after =>
      ',' :: writeLine (depth + 1) (writeString name (':' :: ' ' ::
        value.writeIndented (depth + 1) (writeIndentedMembers depth rest after)))

end

def compact (value : Json) : List Char := value.writeCompact []

/-- A value on many lines with an indent of two spaces. -/
def indented (value : Json) : List Char := value.writeIndented 0 []

def render (value : Json) : String := String.ofList value.compact

def renderPretty (value : Json) : String := String.ofList value.indented

end Json

end TemplateMarkup
