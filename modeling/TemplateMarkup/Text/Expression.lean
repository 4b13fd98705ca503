import TemplateMarkup.Text.WordCharacter

/-!
# Expressions

The expression language of directives is not read here.  Two facts are taken from an expression's
text: whether it awaits something and whether it mentions `props`.  Both are found by looking for a
whole word, also inside string literals.
-/

namespace TemplateMarkup

/-- What is known of an expression from its text. -/
structure ExpressionFlags where
  isAsync : Bool
  referencesProps : Bool
  deriving DecidableEq, Repr, Inhabited

namespace Expression

/-- The text ahead does not continue a word. -/
def endsWord (text : List Char) : Bool :=
  !text.head?.any isWordCharacter

/-- The word occurs somewhere, with nothing of a longer word after it and with a character before it,
if any, that `mayPrecede` allows. -/
def mentions (word : List Char) (mayPrecede : Char → Bool) :
    Option Char → List Char → Bool
  | _, [] => false
  | previous, character :: rest =>
      (previous.all mayPrecede && word.isPrefixOf (character :: rest) &&
          endsWord ((character :: rest).drop word.length)) ||
        mentions word mayPrecede (some character) rest

/-- The word `await` occurs, and neither a word character nor a dot precedes it. -/
def isAsync (text : List Char) : Bool :=
  mentions "await".toList (fun before => !isWordCharacter before && before != '.') none text

/-- The word `props` occurs. -/
def referencesProps (text : List Char) : Bool :=
  mentions "props".toList (fun before => !isWordCharacter before) none text

def classify (text : List Char) : ExpressionFlags :=
  ⟨isAsync text, referencesProps text⟩

end Expression

end TemplateMarkup
