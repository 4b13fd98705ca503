/-!
# Paths

A path is a text that slashes divide into segments.  Its components are what the segments mean: empty
segments and single dots mean nothing, except for a slash or a single dot at the very start.  Paths
are compared by their components and written as they are.
-/

namespace TemplateMarkup

/-- The text of a path. -/
structure Path where
  text : String
  deriving DecidableEq, Repr

/-- A part of a path that means something. -/
inductive PathComponent where
  /-- The slash at the start of an absolute path. -/
  | root
  /-- A single dot at the start of a path. -/
  | here
  /-- Two dots. -/
  | up
  | name (text : String)
  deriving DecidableEq, Repr

namespace PathComponent

/-- The place of a kind of component in the order. -/
def rank : PathComponent → Nat
  | root => 0
  | here => 1
  | up => 2
  | name _ => 3

/-- Components are ordered by their kind, and names by their characters. -/
instance : Ord PathComponent where
  compare first second :=
    match first, second with
    | name first, name second => compare first second
    | first, second => compare first.rank second.rank

end PathComponent

namespace Path

def splitAtSlashes : List Char → List (List Char)
  | [] => [[]]
  | character :: rest =>
      if character == '/' then [] :: splitAtSlashes rest
      else
        match splitAtSlashes rest with
        | [] => [[character]]
        | segment :: later => (character :: segment) :: later

def segments (path : Path) : List String :=
  (splitAtSlashes path.text.toList).map String.ofList

/-- The number of bytes that the name of a file may have. -/
def longestName : Nat := 255

/-- The number of bytes that a path may have. -/
def longestPath : Nat := 4095

/-- The path is short enough to lead somewhere, and so is every name in it. -/
def isUsable (path : Path) : Bool :=
  path.text.utf8ByteSize ≤ longestPath &&
    path.segments.all fun segment => segment.utf8ByteSize ≤ longestName

def ofSegments (segments : List String) : Path :=
  ⟨String.intercalate "/" segments⟩

/-- A segment that means nothing inside a path. -/
def isTrivial (segment : String) : Bool := segment == "" || segment == "."

def isAbsolute (path : Path) : Bool := path.text.toList.head? == some '/'

/-- The component at the very start, which stands for the segment it is made of. -/
def leading? (path : Path) : Option PathComponent :=
  if path.isAbsolute then some .root
  else if path.segments.head? == some "." then some .here
  else none

def body (path : Path) : List String :=
  if path.leading?.isSome then path.segments.tail else path.segments

def component? (segment : String) : Option PathComponent :=
  if isTrivial segment then none
  else if segment == ".." then some .up
  else some (.name segment)

def components (path : Path) : List PathComponent :=
  path.leading?.toList ++ path.body.filterMap component?

/-- Paths are ordered by their components. -/
instance : Ord Path where
  compare first second := List.compareLex compare first.components second.components

def isSame (first second : Path) : Bool := first.components == second.components

/-- The path that another path names from here.  An absolute path stands for itself. -/
def join (path other : Path) : Path :=
  if other.isAbsolute then other
  else if path.text.isEmpty || path.text.toList.getLast? == some '/' then
    ⟨path.text ++ other.text⟩
  else
    ⟨path.text ++ "/" ++ other.text⟩

/-- Drop segments that mean nothing from the end. -/
def trimEnd (segments : List String) : List String :=
  (segments.reverse.dropWhile isTrivial).reverse

/-- Drop a number of meaningful segments from the start, and the others before them. -/
def dropMeaningful : Nat → List String → List String
  | 0, segments => segments
  | _ + 1, [] => []
  | count + 1, segment :: rest =>
      if isTrivial segment then dropMeaningful (count + 1) rest else dropMeaningful count rest

/-- The rest of a path below another one, if its first components are those of the other. -/
def relativeTo? (path base : Path) : Option Path :=
  let count := base.components.length
  if base.components.isPrefixOf path.components then
    if count == 0 then some path
    else
      let meaningful := if path.leading?.isSome then count - 1 else count
      some (ofSegments (trimEnd ((dropMeaningful meaningful path.body).dropWhile isTrivial)))
  else
    none

def fileName? (path : Path) : Option String :=
  match path.components.getLast? with
  | some (.name text) => some text
  | _ => none

/-- The path without its last component.  The root and the empty path have none. -/
def parent? (path : Path) : Option Path :=
  match trimEnd path.body, path.leading? with
  | [], some .here => some ⟨""⟩
  | [], _ => none
  | body, some .root =>
      match trimEnd body.dropLast with
      | [] => some ⟨"/"⟩
      | outer => some (ofSegments ("" :: outer))
  | body, some _ => some (ofSegments ("." :: trimEnd body.dropLast))
  | body, none => some (ofSegments (trimEnd body.dropLast))

/-- The path and the paths around it, innermost first.  The first argument bounds their number. -/
def ancestorsWithin : Nat → Path → List Path
  | 0, path => [path]
  | bound + 1, path =>
      match path.parent? with
      | none => [path]
      | some parent => path :: ancestorsWithin bound parent

/-- The path and the paths around it, innermost first. -/
def ancestors (path : Path) : List Path := ancestorsWithin path.components.length path

end Path

end TemplateMarkup
