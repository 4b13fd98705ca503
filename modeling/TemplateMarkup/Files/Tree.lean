import TemplateMarkup.Files.Path

/-!
# Trees of files

Files in directories, and a current directory from which relative paths lead.  A path leads from
directory to directory, so every segment but the last must name a directory that is there.
-/

namespace TemplateMarkup

/-- A file or a directory with everything in it. -/
inductive FileTree where
  | file (content : ByteArray)
  | directory (entries : List (String × FileTree))

namespace FileTree

def empty : FileTree := directory []

def isDirectory : FileTree → Bool
  | file _ => false
  | directory _ => true

def child? (name : String) : FileTree → Option FileTree
  | file _ => none
  | directory entries => entries.lookup name

def at? (tree : FileTree) : List String → Option FileTree
  | [] => some tree
  | name :: rest =>
      match tree.child? name with
      | none => none
      | some child => child.at? rest

/-- Put an entry in its place, or at the end if there is none of its name. -/
def setEntry (entries : List (String × FileTree)) (name : String) (tree : FileTree) :
    List (String × FileTree) :=
  match entries with
  | [] => [(name, tree)]
  | entry :: rest =>
      if entry.1 = name then (name, tree) :: rest else entry :: setEntry rest name tree

/-- Put a tree at a place.  Directories on the way are made if they are missing. -/
def put (new : FileTree) : List String → FileTree → FileTree
  | [], _ => new
  | _ :: _, file content => file content
  | name :: rest, directory entries =>
      directory (setEntry entries name (put new rest ((entries.lookup name).getD empty)))

def holds (content : ByteArray) : Option FileTree → Bool
  | some (file old) => old.data == content.data
  | _ => false

mutual

/-- The files of a tree that an earlier tree does not have with the same content. -/
def changes (names : List String) (before : Option FileTree) :
    FileTree → List (List String × ByteArray)
  | file content => if holds content before then [] else [(names, content)]
  | directory entries => changesOfEntries names before entries

/-- The files of some entries of a directory that an earlier tree in its place does not have with the
same content. -/
def changesOfEntries (names : List String) (before : Option FileTree) :
    List (String × FileTree) → List (List String × ByteArray)
  | [] => []
  | (name, tree) :: rest =>
      tree.changes (names ++ [name]) (before.bind (·.child? name)) ++
        changesOfEntries names before rest

end

end FileTree

/-- A tree from its root, and the names that lead to the current directory. -/
structure FileSystem where
  root : FileTree
  here : List String

namespace FileSystem

def start (system : FileSystem) (path : Path) : List String :=
  if path.isAbsolute then [] else system.here

/-- What is at a place given by names from the root. -/
def treeAt? (system : FileSystem) (place : List String) : Option FileTree :=
  system.root.at? place

def isDirectoryAt (system : FileSystem) (place : List String) : Bool :=
  (system.treeAt? place).any (·.isDirectory)

/-- The place that a segment leads to from a place. -/
def next (place : List String) (segment : String) : List String :=
  if Path.isTrivial segment then place
  else if segment == ".." then place.dropLast
  else place ++ [segment]

/-- The places that a path leads through, whether or not anything is there. -/
def route (system : FileSystem) (path : Path) : List (List String) :=
  path.segments.scanl next (system.start path)

def follow? (system : FileSystem) (place : List String) (segment : String) :
    Option (List String) :=
  if system.isDirectoryAt place && (system.treeAt? (next place segment)).isSome then
    some (next place segment)
  else
    none

/-- The place that a path leads to. -/
def locate? (system : FileSystem) (path : Path) : Option (List String) :=
  if path.text.isEmpty || !path.isUsable then none
  else path.segments.foldlM system.follow? (system.start path)

def find? (system : FileSystem) (path : Path) : Option FileTree :=
  (system.locate? path).bind system.treeAt?

def isFile (system : FileSystem) (path : Path) : Bool :=
  (system.find? path).any (!·.isDirectory)

/-- The content of the file that a path leads to. -/
def read? (system : FileSystem) (path : Path) : Option ByteArray :=
  match system.find? path with
  | some (.file content) => some content
  | _ => none

/-- The text of the file that a path leads to, if it is UTF-8. -/
def readText? (system : FileSystem) (path : Path) : Option String :=
  (system.read? path).bind String.fromUTF8?

def put (system : FileSystem) (tree : FileTree) (place : List String) : FileSystem :=
  { system with root := FileTree.put tree place system.root }

/-- Follow one segment from a directory, making the directory it names if there is nothing. -/
def enterOrMake? (system : FileSystem) (place : List String) (segment : String) :
    Option (FileSystem × List String) :=
  let entered := next place segment
  if !system.isDirectoryAt place then none
  else
    match system.treeAt? entered with
    | none => some (system.put .empty entered, entered)
    | some tree => if tree.isDirectory then some (system, entered) else none

/-- Make the directories along a path that are not there. -/
def makeDirectories? (system : FileSystem) (path : Path) : Option FileSystem :=
  if path.isUsable then
    (path.segments.foldlM (fun state segment => enterOrMake? state.1 state.2 segment)
      (system, system.start path)).map Prod.fst
  else
    none

/-- Give a file new content, making it if it is not there.  Its directory must be there. -/
def write? (system : FileSystem) (path : Path) (content : ByteArray) : Option FileSystem := do
  let name ← path.segments.getLast?
  let place ← path.segments.dropLast.foldlM system.follow? (system.start path)
  if path.isUsable && system.isDirectoryAt place && !system.isDirectoryAt (place ++ [name]) then
    return system.put (.file content) (place ++ [name])
  else
    none

end FileSystem

end TemplateMarkup
