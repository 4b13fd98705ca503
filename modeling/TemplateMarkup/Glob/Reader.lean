import TemplateMarkup.Glob.Nesting

/-!
# Reading glob patterns

A pattern is first split into plain characters, escaped characters and classes.  Then groups in braces
are put together, and two stars between slashes, or at an end of the pattern, become a token for any
number of directories.
-/

namespace TemplateMarkup

namespace Glob

/-- A part of the text of a pattern. -/
inductive Lexeme where
  | plain (character : Char)
  /-- A character after a backslash. -/
  | escaped (character : Char)
  /-- A class in brackets. -/
  | oneOf (isNegated : Bool) (ranges : List (Char × Char))
  deriving Repr

/-- Where the reader of a pattern's text is. -/
inductive Mode where
  | outside
  /-- Directly after the bracket that opens a class. -/
  | classStart
  /-- In a class, with its ranges so far, latest first.  A hyphen after the latest range waits for the
  range's end. -/
  | inClass (isNegated : Bool) (ranges : List (Char × Char)) (isHyphenOpen : Bool)
  deriving Repr

/-- The ranges of a class at its closing bracket.  A hyphen that still waits stands for itself. -/
def closeRanges (ranges : List (Char × Char)) (isHyphenOpen : Bool) : List (Char × Char) :=
  if isHyphenOpen then (('-', '-') :: ranges).reverse else ranges.reverse

/-- Take a character into a class.  There is none after a range that ends before it starts. -/
def extendRanges (ranges : List (Char × Char)) (isHyphenOpen : Bool) (character : Char) :
    Option (List (Char × Char)) :=
  match ranges with
  | (first, _) :: earlier =>
      if isHyphenOpen then
        if character < first then none else some ((first, character) :: earlier)
      else
        some ((character, character) :: ranges)
  | [] => some [(character, character)]

/-- Split the text of a pattern.  A class must be closed and something must follow a backslash. -/
def lexemes? (mode : Mode) : List Char → Option (List Lexeme)
  | [] =>
      match mode with
      | .outside => some []
      | _ => none
  | character :: rest =>
      match mode with
      | .outside =>
          if character == '[' then lexemes? .classStart rest
          else if character == '\\' then
            match rest with
            | [] => none
            | escaped :: rest => (lexemes? .outside rest).map (.escaped escaped :: ·)
          else (lexemes? .outside rest).map (.plain character :: ·)
      | .classStart =>
          if character == '!' || character == '^' then lexemes? (.inClass true [] false) rest
          else lexemes? (.inClass false [(character, character)] false) rest
      | .inClass isNegated ranges isHyphenOpen =>
          if character == ']' && !ranges.isEmpty then
            (lexemes? .outside rest).map
              (.oneOf isNegated (closeRanges ranges isHyphenOpen) :: ·)
          else if character == '-' && !ranges.isEmpty && !isHyphenOpen then
            lexemes? (.inClass isNegated ranges true) rest
          else
            match extendRanges ranges isHyphenOpen character with
            | none => none
            | some ranges => lexemes? (.inClass isNegated ranges false) rest

/-- A group in braces whose end has not been read. -/
structure Group where
  /-- The tokens before the group, latest first. -/
  before : List GlobToken
  /-- The branches that have ended, latest first. -/
  branches : List (List GlobToken)
  deriving Repr

/-- What may follow two stars. -/
inductive AfterStars where
  | slash
  | nothing
  /-- The end of a branch of a group. -/
  | branchEnd
  | other
  deriving DecidableEq, Repr

def afterStars (isInGroup : Bool) : List Lexeme → AfterStars
  | [] => .nothing
  | .plain character :: _ =>
      if character == '/' then .slash
      else if isInGroup && (character == ',' || character == '\x7d') then .branchEnd
      else .other
  | _ :: _ => .other

/-- The tokens, latest first, after two stars have been read, with the character before the stars. -/
def takeStars (previous : Option Char) (isInGroup : Bool) (following : AfterStars)
    (taken : List GlobToken) : List GlobToken :=
  let twoStars := .anything :: .anything :: taken
  match taken with
  | [] => if following = .slash ∨ following = .nothing then [.leadingDirectories] else twoStars
  | latest :: earlier =>
      let opensBranch := isInGroup && (previous == some ',' || previous == some '\x7b')
      if previous != some '/' && !opensBranch then twoStars
      else if following = .other then twoStars
      else
        match latest with
        | .leadingDirectories => taken
        | .belowDirectory => taken
        | _ =>
            if following = .slash then .throughDirectories :: earlier
            else .belowDirectory :: earlier

/-- Two stars take the slash after them along, if they become a token for directories. -/
def takesSlash (previous : Option Char) (isInGroup : Bool) (taken : List GlobToken) : Bool :=
  taken.isEmpty || previous == some '/' ||
    (isInGroup && (previous == some ',' || previous == some '\x7b'))

/-- Put tokens together.  The tokens of the current branch are taken latest first. -/
def tokens? (previous : Option Char) (taken : List GlobToken) (groups : List Group) :
    List Lexeme → Option (List GlobToken)
  | [] => if groups.isEmpty then some taken.reverse else none
  | .escaped character :: rest =>
      tokens? (some character) (.literal character :: taken) groups rest
  | .oneOf isNegated ranges :: rest =>
      tokens? (some ']') (.oneOf isNegated ranges :: taken) groups rest
  | .plain '*' :: .plain '*' :: .plain '/' :: rest =>
      let isInGroup := !groups.isEmpty
      let starred := takeStars previous isInGroup .slash taken
      let after := if takesSlash previous isInGroup taken then starred else .literal '/' :: starred
      tokens? (some '/') after groups rest
  | .plain '*' :: .plain '*' :: rest =>
      let isInGroup := !groups.isEmpty
      tokens? (some '*') (takeStars previous isInGroup (afterStars isInGroup rest) taken) groups rest
  | .plain character :: rest =>
      match character, groups with
      | '*', _ => tokens? (some character) (.anything :: taken) groups rest
      | '?', _ => tokens? (some character) (.anyByte :: taken) groups rest
      | '\x7b', _ => tokens? (some character) [] (⟨taken, []⟩ :: groups) rest
      | '\x7d', [] => none
      | '\x7d', group :: outer =>
          let branches := (taken.reverse :: group.branches).reverse
          tokens? (some character) (.alternatives branches :: group.before) outer rest
      | ',', group :: outer =>
          tokens? (some character) []
            ({ group with branches := taken.reverse :: group.branches } :: outer) rest
      | _, _ => tokens? (some character) (.literal character :: taken) groups rest

/-- Read a pattern that does not nest too deep. -/
def read? (text : String) : Option Glob := do
  let lexemes ← lexemes? .outside text.toList
  let tokens ← tokens? none [] [] lexemes
  let glob : Glob := ⟨tokens⟩
  if glob.levels ≤ mostLevels then some glob else none

end Glob

end TemplateMarkup
