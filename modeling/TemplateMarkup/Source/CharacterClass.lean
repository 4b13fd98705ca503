/-!
# Character classes

The classes of characters that the markup tells apart.  All of them are decided by ASCII characters
alone: every other character is a name character and a value character, and nothing else.
-/

namespace TemplateMarkup

/-- Something is asked of the characters of a text, not of all characters there are. -/
instance (priority := 2000) decidableForallMem (text : List Char) (holds : Char → Prop)
    [DecidablePred holds] : Decidable (∀ character ∈ text, holds character) :=
  List.decidableBAll holds text

namespace CharacterClass

/-- Line feed, carriage return and form feed end a line. -/
def isLineBreak (character : Char) : Bool :=
  character == '\n' || character == '\r' || character == '\x0c'

/-- White space of the markup: space, tab and the line breaks. -/
def isWhitespace (character : Char) : Bool :=
  character == ' ' || character == '\t' || isLineBreak character

/-- Quotes around attribute values.  A backtick quotes directive values only. -/
def isQuote (character : Char) : Bool :=
  character == '"' || character == '\'' || character == '`'

/-- A tag name starts with an ASCII letter, an underscore or a colon. -/
def startsTagName (character : Char) : Bool :=
  character.isAlpha || character == '_' || character == ':'

/-- The characters of which a tag's end `>` or `/>` is made. -/
def endsTag (character : Char) : Bool :=
  character == '>' || character == '/'

/-- Names hold anything but white space, quotes, `>`, `/` and `=`. -/
def isNameCharacter (character : Char) : Bool :=
  !isWhitespace character && !isQuote character && !endsTag character && character != '='

/-- Unquoted values hold anything but white space, straight quotes, `<`, `>` and `=`.  A slash is an
ordinary character here, unless it starts `/>`. -/
def isUnquotedValueCharacter (character : Char) : Bool :=
  !isWhitespace character && character != '"' && character != '\'' && character != '>' &&
    character != '<' && character != '='

def isScriptQuote (character : Char) : Bool :=
  character == '"' || character == '\'' || character == '`'

def isStyleQuote (character : Char) : Bool :=
  character == '"' || character == '\''

end CharacterClass

end TemplateMarkup
