import TemplateMarkup.Glob.Basic

/-!
# Nesting of glob patterns

How deep the parts of a pattern are inside each other.  A sequence of several parts is a level, and so
are a repetition, a class, a class of several ranges inside it, a group, and the choice between the
branches of a group.  A pattern with too many levels is refused.
-/

namespace TemplateMarkup

namespace GlobToken

/-- The number of parts that a token puts into the sequence it stands in. -/
def parts (token : GlobToken) : Nat :=
  match token with
  | literal character => character.utf8Size
  | belowDirectory => 2
  | alternatives _ => if token.isVacuous then 0 else 1
  | _ => 1

/-- One more level for a sequence of tokens, unless it has a single part. -/
def sequenceLevels (tokens : List GlobToken) : Nat :=
  if 1 < (tokens.map parts).foldl Nat.add 0 then 1 else 0

/-- One more level for a choice between branches, unless only one of them counts. -/
def choiceLevels (branches : List (List GlobToken)) : Nat :=
  if 1 < branches.countP (!allVacuous ·) then 1 else 0

mutual

def levels : GlobToken → Nat
  | literal _ => 0
  | anyByte => 0
  | anything => 1
  | leadingDirectories => 4
  | belowDirectory => 1
  | throughDirectories => 4
  | oneOf _ ranges => if 1 < (ranges.flatMap byteRanges).length then 2 else 1
  | alternatives branches =>
      if noneCounts branches then 0 else 1 + choiceLevels branches + levelsOfAny branches

/-- The most levels of any token of a sequence. -/
def levelsOfAll : List GlobToken → Nat
  | [] => 0
  | token :: rest => max token.levels (levelsOfAll rest)

def levelsOfAny : List (List GlobToken) → Nat
  | [] => 0
  | branch :: rest => max (sequenceLevels branch + levelsOfAll branch) (levelsOfAny rest)

end

end GlobToken

namespace Glob

/-- The number of levels that a pattern may have. -/
def mostLevels : Nat := 250

/-- The levels of a pattern.  A whole pattern is a sequence, however short. -/
def levels (glob : Glob) : Nat := 1 + GlobToken.levelsOfAll glob.tokens

end Glob

end TemplateMarkup
