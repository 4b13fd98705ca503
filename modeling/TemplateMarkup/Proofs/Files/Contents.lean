import TemplateMarkup.Proofs.Files.Writing

/-!
# Contents of files

What there is to be read in a system: the content of the file at each place.  A path leads where it
leads whatever the files contain, so two systems with the same names and directories differ in the
contents only.  A file that is put into a directory changes the content at its own place.
-/

namespace TemplateMarkup

namespace FileTree

/-- The content of a file. -/
def content? : FileTree → Option ByteArray
  | file content => some content
  | directory _ => none

mutual

/-- The tree with all its files emptied. -/
def blank : FileTree → FileTree
  | file _ => file .empty
  | directory entries => directory (blankEntries entries)

/-- The entries of a directory with all files emptied. -/
def blankEntries : List (String × FileTree) → List (String × FileTree)
  | [] => []
  | (name, tree) :: rest => (name, tree.blank) :: blankEntries rest

end

theorem isDirectory_blank (tree : FileTree) : tree.blank.isDirectory = tree.isDirectory := by
  cases tree <;> rfl

theorem lookup_blankEntries (entries : List (String × FileTree)) (name : String) :
    (blankEntries entries).lookup name = (entries.lookup name).map blank := by
  induction entries with
  | nil => rfl
  | cons entry rest ih =>
      rw [blankEntries, lookup_entry, lookup_entry, ih]
      split <;> rfl

theorem at?_blank (tree : FileTree) (place : List String) :
    tree.blank.at? place = (tree.at? place).map blank := by
  induction place generalizing tree with
  | nil => rfl
  | cons name rest ih =>
      cases tree with
      | file content => rfl
      | directory entries =>
          rw [blank, at?_cons, at?_cons, lookup_blankEntries]
          cases entries.lookup name with
          | none => rfl
          | some child => exact ih child

theorem blankEntries_setEntry {entries : List (String × FileTree)} {name : String}
    {old new : FileTree} (found : entries.lookup name = some old) (same : new.blank = old.blank) :
    blankEntries (setEntry entries name new) = blankEntries entries := by
  induction entries with
  | nil => cases found
  | cons entry rest ih =>
      rw [lookup_entry] at found
      rw [setEntry]
      by_cases isEntry : entry.1 = name
      · rw [if_pos isEntry.symm] at found
        cases found
        rw [if_pos isEntry, blankEntries, blankEntries, same, isEntry]
      · rw [if_neg (Ne.symm isEntry)] at found
        rw [if_neg isEntry, blankEntries, blankEntries, ih found]

/-- Names and directories stay when a file takes the place of another one. -/
theorem blank_put {content old : ByteArray} {place : List String} {tree : FileTree}
    (isFile : tree.at? place = some (file old)) :
    (put (file content) place tree).blank = tree.blank := by
  induction place generalizing tree with
  | nil =>
      cases isFile
      rfl
  | cons name rest ih =>
      cases tree with
      | file => cases isFile
      | directory entries =>
          rw [at?_cons] at isFile
          obtain ⟨child, isChild, isBelow⟩ := Option.bind_eq_some_iff.mp isFile
          rw [put, blank, blank, isChild, Option.getD_some, blankEntries_setEntry isChild (ih isBelow)]

theorem at?_append (tree : FileTree) (place rest : List String) :
    tree.at? (place ++ rest) = (tree.at? place).bind (·.at? rest) := by
  induction place generalizing tree with
  | nil => rfl
  | cons name inner ih =>
      cases tree with
      | file content => rfl
      | directory entries =>
          rw [List.cons_append, at?_cons, at?_cons, Option.bind_assoc]
          exact congrArg _ (funext ih)

/-- A file that is put into a directory, in no directory's place, changes nothing but its own
content. -/
theorem content?_put (content : ByteArray) {place : List String} (name : String) {tree : FileTree}
    {entries : List (String × FileTree)} (isThere : tree.at? place = some (directory entries))
    (free : ∀ old, entries.lookup name = some old → old.isDirectory = false) (other : List String) :
    ((put (file content) (place ++ [name]) tree).at? other).bind content? =
      if other = place ++ [name] then some content else (tree.at? other).bind content? := by
  induction place generalizing tree other with
  | nil =>
      cases isThere
      cases other with
      | nil => rfl
      | cons segment deeper =>
          rw [List.nil_append, at?_put_cons, at?_cons]
          by_cases same : segment = name
          · subst same
            cases deeper with
            | nil =>
                rw [if_pos rfl, if_pos rfl]
                rfl
            | cons below deeper =>
                rw [if_pos rfl, if_neg (by simp)]
                cases found : entries.lookup segment with
                | none => rfl
                | some old =>
                    have notDirectory := free old found
                    cases old with
                    | file => rfl
                    | directory => cases notDirectory
          · rw [if_neg same, if_neg (fun equal => same (List.cons.inj equal).1)]
  | cons first rest ih =>
      cases tree with
      | file => cases isThere
      | directory others =>
          rw [at?_cons] at isThere
          obtain ⟨child, isChild, isBelow⟩ := Option.bind_eq_some_iff.mp isThere
          cases other with
          | nil => rfl
          | cons segment deeper =>
              rw [List.cons_append, at?_put_cons, at?_cons]
              by_cases same : segment = first
              · subst same
                rw [if_pos rfl, isChild, Option.getD_some, Option.bind_some, ih isBelow]
                simp only [List.cons.injEq, true_and]
              · rw [if_neg same, if_neg (fun equal => same (List.cons.inj equal).1)]

theorem content?_at?_empty (place : List String) : (empty.at? place).bind content? = none := by
  cases place <;> rfl

/-- An empty directory that is put where nothing is changes no file. -/
theorem content?_put_empty {place : List String} {tree : FileTree} (isFree : tree.at? place = none)
    (other : List String) :
    ((put empty place tree).at? other).bind content? = (tree.at? other).bind content? := by
  induction place generalizing tree other with
  | nil => cases isFree
  | cons first rest ih =>
      cases tree with
      | file => rfl
      | directory entries =>
          rw [at?_cons] at isFree
          cases other with
          | nil => rfl
          | cons segment deeper =>
              rw [at?_put_cons, at?_cons]
              by_cases same : segment = first
              · subst same
                rw [if_pos rfl]
                cases found : entries.lookup segment with
                | some child =>
                    rw [found] at isFree
                    exact ih isFree deeper
                | none =>
                    -- What is made on the way is empty, too.
                    have made : ((put empty rest empty).at? deeper).bind content? = none := by
                      cases rest with
                      | nil => exact content?_at?_empty deeper
                      | cons below rest =>
                          rw [ih rfl deeper]
                          exact content?_at?_empty deeper
                    exact made
              · rw [if_neg same]

end FileTree

namespace FileSystem

/-- The content of the file at a place. -/
def fileAt? (system : FileSystem) (place : List String) : Option ByteArray :=
  (system.treeAt? place).bind FileTree.content?

/-- The system with all its files emptied. -/
def blank (system : FileSystem) : FileSystem := { system with root := system.root.blank }

variable (system : FileSystem)

theorem read?_eq (path : Path) : system.read? path = (system.locate? path).bind system.fileAt? := by
  rw [read?, find?]
  cases system.locate? path with
  | none => rfl
  | some place =>
      rw [Option.bind_some, Option.bind_some, fileAt?]
      rcases system.treeAt? place with _ | content | entries <;> rfl

theorem treeAt?_blank (place : List String) :
    system.blank.treeAt? place = (system.treeAt? place).map FileTree.blank :=
  FileTree.at?_blank system.root place

theorem isDirectoryAt_blank (place : List String) :
    system.blank.isDirectoryAt place = system.isDirectoryAt place := by
  rw [isDirectoryAt, isDirectoryAt, treeAt?_blank, Option.any_map]
  exact congrArg (Option.any · _) (funext FileTree.isDirectory_blank)

theorem follow?_blank : system.blank.follow? = system.follow? := by
  funext place segment
  rw [follow?, follow?, isDirectoryAt_blank, treeAt?_blank, Option.isSome_map]

/-- Where a path leads has nothing to do with the contents of files. -/
theorem locate?_blank (path : Path) : system.blank.locate? path = system.locate? path := by
  rw [locate?, locate?, follow?_blank]
  rfl

theorem find?_blank (path : Path) :
    system.blank.find? path = (system.find? path).map FileTree.blank := by
  rw [find?, find?, locate?_blank, Option.map_bind]
  exact congrArg _ (funext system.treeAt?_blank)

theorem isFile_blank (path : Path) : system.blank.isFile path = system.isFile path := by
  rw [isFile, isFile, find?_blank, Option.any_map]
  exact congrArg (Option.any · _) (funext fun tree => congrArg _ tree.isDirectory_blank)

/-- The systems have the same names and directories, and the same contents but for the file at a
place. -/
structure DifferAt (place : List String) (first second : FileSystem) : Prop where
  blank : first.blank = second.blank
  contents : ∀ other, other ≠ place → first.fileAt? other = second.fileAt? other

variable {system} {first second : FileSystem} {place : List String}

theorem DifferAt.locate?_eq (differ : DifferAt place first second) (path : Path) :
    second.locate? path = first.locate? path := by
  rw [← locate?_blank, ← differ.blank, locate?_blank]

theorem DifferAt.isFile_eq (differ : DifferAt place first second) :
    second.isFile = first.isFile := by
  funext path
  rw [← isFile_blank, ← differ.blank, isFile_blank]

/-- A path that leads elsewhere is read as before. -/
theorem DifferAt.readText?_eq (differ : DifferAt place first second) {path : Path}
    (elsewhere : first.locate? path ≠ some place) :
    second.readText? path = first.readText? path := by
  rw [readText?, readText?, read?_eq, read?_eq, differ.locate?_eq]
  cases located : first.locate? path with
  | none => rfl
  | some other =>
      have different : other ≠ place := fun same => elsewhere (same ▸ located)
      rw [Option.bind_some, Option.bind_some, differ.contents other different]

/-- A file that is put into a directory, in no directory's place, changes the content there. -/
theorem fileAt?_put (content : ByteArray) {name : String}
    (isDirectory : system.isDirectoryAt place = true)
    (free : system.isDirectoryAt (place ++ [name]) = false) (other : List String) :
    (system.put (.file content) (place ++ [name])).fileAt? other =
      if other = place ++ [name] then some content else system.fileAt? other := by
  obtain ⟨entries, isThere⟩ := exists_of_isDirectoryAt isDirectory
  refine FileTree.content?_put content name isThere (fun old found => ?_) other
  have isThere : system.treeAt? (place ++ [name]) = some old := by
    rw [treeAt?, FileTree.at?_append, isThere, Option.bind_some, FileTree.at?_cons, found]
    rfl
  rwa [isDirectoryAt, isThere] at free

/-- A system in which one file has been rewritten differs there. -/
theorem differAt_put (content : ByteArray) {name : String} {old : ByteArray}
    (isDirectory : system.isDirectoryAt place = true)
    (isFile : system.treeAt? (place ++ [name]) = some (.file old)) :
    DifferAt (place ++ [name]) system (system.put (.file content) (place ++ [name])) where
  blank := by
    rw [blank, blank, put, FileTree.blank_put isFile]
  contents other different := by
    have free : system.isDirectoryAt (place ++ [name]) = false := by
      rw [isDirectoryAt, isFile]
      rfl
    rw [fileAt?_put content isDirectory free, if_neg different]

end FileSystem

end TemplateMarkup
