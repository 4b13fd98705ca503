import TemplateMarkup.Source.CharacterClass

/-!
# White space of texts

A policy says what happens to the white space of a text.  White space at an end of the text becomes a
single space, or nothing if that end is stripped.  White space between other characters becomes a
single space if the interior is flattened, and is kept otherwise.
-/

namespace TemplateMarkup

open CharacterClass

/-- Drop the characters of a class from both ends of a text. -/
def trimEnds (dropped : Char → Bool) (text : List Char) : List Char :=
  ((text.dropWhile dropped).reverse.dropWhile dropped).reverse

/-- What happens to the white space of a text. -/
structure WhitespacePolicy where
  flattenInterior : Bool
  stripLeading : Bool
  stripTrailing : Bool
  deriving DecidableEq, Repr

namespace WhitespacePolicy

/-- Nothing is stripped, and the interior is kept. -/
def keeping : WhitespacePolicy := ⟨false, false, false⟩

/-- Text between tags is flattened.  It is stripped at the start when nothing precedes it in its
element, and at the end when nothing follows it. -/
def between (isFirst isLast : Bool) : WhitespacePolicy := ⟨true, isFirst, isLast⟩

/-- A raw body loses the white space around it and keeps the rest. -/
def rawBody : WhitespacePolicy := ⟨false, true, true⟩

/-- Every run of white space becomes one space. -/
def flatten : List Char → List Char
  | [] => []
  | character :: rest =>
      if isWhitespace character then
        if rest.head?.any isWhitespace then flatten rest else ' ' :: flatten rest
      else
        character :: flatten rest

/-- What remains of the white space at one end of a text. -/
def edge (strip isPresent : Bool) : List Char :=
  if isPresent && !strip then [' '] else []

/-- Apply the policy.  A text of white space alone is at both of its ends. -/
def apply (policy : WhitespacePolicy) (text : List Char) : List Char :=
  let core := trimEnds isWhitespace text
  if core.isEmpty then
    edge (policy.stripLeading || policy.stripTrailing) (!text.isEmpty)
  else
    edge policy.stripLeading (text.head?.any isWhitespace) ++
      (if policy.flattenInterior then flatten core else core) ++
      edge policy.stripTrailing (text.getLast?.any isWhitespace)

end WhitespacePolicy

end TemplateMarkup
