/-!
# Glob patterns

A pattern is a sequence of tokens, and a token goes over some bytes of a text.  The places of a text,
from before its first byte to after its last one, are marked where a pattern can have come so far, and
each token moves the marks on.  A pattern matches a text if it can come to the last place.  A slash is
an ordinary byte for every token that does not name it.
-/

namespace TemplateMarkup

/-- A part of a pattern. -/
inductive GlobToken where
  /-- The bytes of a character. -/
  | literal (character : Char)
  /-- One byte. -/
  | anyByte
  /-- Any number of bytes. -/
  | anything
  /-- Nothing, or any text up to a slash. -/
  | leadingDirectories
  /-- A slash and any text. -/
  | belowDirectory
  /-- A slash, or a slash, any text and another slash. -/
  | throughDirectories
  /-- One byte of a class given by ranges of characters, or one byte that is not in it. -/
  | oneOf (isNegated : Bool) (ranges : List (Char × Char))
  /-- Any one of several patterns. -/
  | alternatives (branches : List (List GlobToken))
  deriving Repr

/-- A pattern for paths. -/
structure Glob where
  tokens : List GlobToken
  deriving Repr

/-- Which places of a text are marked, from the place before its first byte on. -/
abbrev Marks := List Bool

namespace Marks

/-- Only the place before the first byte of a text is marked. -/
def atStart (text : List UInt8) : Marks := true :: text.map fun _ => false

/-- The places that are marked in either of two ways. -/
def union (first second : Marks) : Marks := List.zipWith or first second

/-- The places after a byte that satisfies a condition and has a marked place before it. -/
def pastByte (text : List UInt8) (condition : UInt8 → Bool) (marks : Marks) : Marks :=
  false :: List.zipWith (fun byte isMarked => isMarked && condition byte) text marks

/-- All places from the first marked one on. -/
def onward : Marks → Marks
  | [] => []
  | isMarked :: rest => isMarked :: (if isMarked then rest.map fun _ => true else onward rest)

def clear (marks : Marks) : Marks := marks.map fun _ => false

def atEnd (marks : Marks) : Bool := marks.getLast? == some true

end Marks

namespace GlobToken

def isSlash (byte : UInt8) : Bool := byte == 0x2F

/-- The parts of a range of characters, each from a byte to a byte.  A character of several bytes
stands for each of its bytes, and a range reaches from the last byte of its first character to the
first byte of its last one. -/
def byteRanges (range : Char × Char) : List (UInt8 × UInt8) :=
  let first := String.utf8EncodeChar range.1
  let last := String.utf8EncodeChar range.2
  let alone (byte : UInt8) := (byte, byte)
  if range.1 == range.2 then first.map alone
  else
    first.dropLast.map alone ++ List.zip (first.drop (first.length - 1)) (last.take 1) ++
      last.tail.map alone

/-- A byte belongs to one of some ranges of characters. -/
def isInRanges (ranges : List (Char × Char)) (byte : UInt8) : Bool :=
  (ranges.flatMap byteRanges).any fun (first, last) => first ≤ byte && byte ≤ last

mutual

/-- The token asks for nothing and matches only the empty text: it has no alternatives. -/
def isVacuous : GlobToken → Bool
  | alternatives branches => noneCounts branches
  | _ => false

def allVacuous : List GlobToken → Bool
  | [] => true
  | token :: rest => token.isVacuous && allVacuous rest

/-- Every branch is vacuous.  Such branches do not count. -/
def noneCounts : List (List GlobToken) → Bool
  | [] => true
  | branch :: rest => allVacuous branch && noneCounts rest

end

mutual

/-- Move the marks of a text over what a token matches. -/
def move (text : List UInt8) : GlobToken → Marks → Marks
  | literal character, marks =>
      (String.utf8EncodeChar character).foldl
        (fun marks byte => marks.pastByte text (· == byte)) marks
  | anyByte, marks => marks.pastByte text fun _ => true
  | anything, marks => marks.onward
  | leadingDirectories, marks => marks.union (marks.onward.pastByte text isSlash)
  | belowDirectory, marks => (marks.pastByte text isSlash).onward
  | throughDirectories, marks =>
      let past := marks.pastByte text isSlash
      past.union (past.onward.pastByte text isSlash)
  | oneOf isNegated ranges, marks =>
      marks.pastByte text fun byte => isInRanges ranges byte != isNegated
  | alternatives branches, marks =>
      if noneCounts branches then marks else moveAny text branches marks

/-- Move the marks of a text over what a sequence of tokens matches. -/
def moveAll (text : List UInt8) : List GlobToken → Marks → Marks
  | [], marks => marks
  | token :: rest, marks => moveAll text rest (token.move text marks)

/-- Move the marks of a text over what any branch that counts matches. -/
def moveAny (text : List UInt8) : List (List GlobToken) → Marks → Marks
  | [], marks => marks.clear
  | branch :: rest, marks =>
      if allVacuous branch then moveAny text rest marks
      else (moveAll text branch marks).union (moveAny text rest marks)

end

/-- The token is a character that satisfies a condition. -/
def isLiteral (condition : Char → Bool) : GlobToken → Bool
  | literal character => condition character
  | _ => false

end GlobToken

namespace Glob

def afterDirectories : List GlobToken → List GlobToken
  | .leadingDirectories :: rest => rest
  | tokens => tokens

/-- The pattern is the name of a file in any directory. -/
def isFileName : List GlobToken → Bool
  | .leadingDirectories :: rest => !rest.isEmpty && rest.all (·.isLiteral (· != '/'))
  | _ => false

/-- The pattern is the last dot of a file name and what follows it. -/
def isExtension (tokens : List GlobToken) : Bool :=
  match afterDirectories tokens with
  | .anything :: .literal '.' :: rest => rest.all (·.isLiteral fun it => it != '.' && it != '/')
  | _ => false

/-- The pattern is what a path ends in. -/
def isEnding (tokens : List GlobToken) : Bool :=
  match afterDirectories tokens with
  | .anything :: rest => rest.all (·.isLiteral fun _ => true)
  | rest => rest.all (·.isLiteral fun _ => true)

/-- The pattern ends in the last dot of a file name and what follows it. -/
def hasExtension (tokens : List GlobToken) : Bool :=
  (tokens.reverse.takeWhile (·.isLiteral (· != '/'))).any (·.isLiteral (· == '.'))

/-- The pattern is looked up by a file name or its extension, so a path must have a file name. -/
def needsFileName (tokens : List GlobToken) : Bool :=
  isFileName tokens || isExtension tokens || (hasExtension tokens && !isEnding tokens)

/-- The last segment of a path names the directory around it, and no file. -/
def endsInParent (text : List Char) : Bool :=
  text.reverse.takeWhile (· != '/') == ['.', '.']

/-- The pattern matches the whole of a text.  A pattern of leading directories alone matches every
text. -/
def isMatch (glob : Glob) (text : String) : Bool :=
  match glob.tokens with
  | [.leadingDirectories] => true
  | tokens =>
      let bytes := text.toList.flatMap String.utf8EncodeChar
      !(needsFileName tokens && endsInParent text.toList) &&
        (GlobToken.moveAll bytes tokens (.atStart bytes)).atEnd

end Glob

end TemplateMarkup
