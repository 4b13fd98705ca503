import Mathlib.Data.List.Basic
import TemplateMarkup.Files.Tree
import TemplateMarkup.Proofs.Files.Steps

/-!
# Writing files

A file is put where no directory is.  So everything that has been there is there still, directories
stay directories, and each path leads where it has led before.  The path of the new file leads to the
new file.
-/

namespace TemplateMarkup

namespace Path

/-- The last segment is a name, so the path leads to an entry of a directory. -/
def EndsInName (path : Path) : Prop :=
  ∀ name ∈ path.segments.getLast?, isTrivial name = false ∧ name ≠ ".."

/-- A text that ends in at least three characters other than slashes is a path that ends in a name. -/
theorem endsInName_of_append {path : Path} {front back : List Char}
    (isText : path.text.toList = front ++ back) (noSlash : '/' ∉ back) (long : 2 < back.length) :
    path.EndsInName := by
  intro name isName
  obtain ⟨start, last, -, together⟩ := exists_splitAtSlashes_append front noSlash
  rw [segments, isText, together, List.map_append, List.map_singleton, List.getLast?_concat] at isName
  have isLonger : 2 < name.toList.length := by
    cases isName
    rw [String.toList_ofList, List.length_append]
    omega
  have different (other : String) (short : other.toList.length ≤ 2) : name ≠ other := by
    rintro rfl
    omega
  refine ⟨?_, different ".." (by decide)⟩
  rw [isTrivial, Bool.or_eq_false_iff, beq_eq_false_iff_ne, beq_eq_false_iff_ne]
  exact ⟨different "" (by decide), different "." (by decide)⟩

/-- A path ends in the same way wherever it starts. -/
theorem exists_append_join (path : Path) {other : Path} {front back : List Char}
    (isText : other.text.toList = front ++ back) :
    ∃ start, (path.join other).text.toList = start ++ back := by
  unfold join
  split
  · exact ⟨front, isText⟩
  split
  · refine ⟨path.text.toList ++ front, ?_⟩
    rw [String.toList_append, isText, List.append_assoc]
  · refine ⟨(path.text ++ "/").toList ++ front, ?_⟩
    rw [String.toList_append, isText, List.append_assoc]

end Path

namespace FileTree

theorem lookup_entry (entry : String × FileTree) (rest : List (String × FileTree))
    (sought : String) :
    (entry :: rest).lookup sought =
      if sought = entry.1 then some entry.2 else rest.lookup sought := by
  rw [List.lookup_cons]
  by_cases same : sought = entry.1
  · rw [if_pos same, beq_iff_eq.mpr same]
  · rw [if_neg same, beq_eq_false_iff_ne.mpr same]

theorem lookup_setEntry (entries : List (String × FileTree)) (name sought : String)
    (tree : FileTree) :
    (setEntry entries name tree).lookup sought =
      if sought = name then some tree else entries.lookup sought := by
  induction entries with
  | nil => exact lookup_entry (name, tree) [] sought
  | cons entry rest ih =>
      rw [setEntry]
      split
      · next isEntry =>
          rw [lookup_entry, lookup_entry, isEntry]
          split <;> rfl
      · next notEntry =>
          rw [lookup_entry, lookup_entry, ih]
          by_cases same : sought = name
          · rw [if_neg fun isEntry => notEntry (isEntry.symm.trans same), if_pos same, if_pos same]
          · rw [if_neg same, if_neg same]

theorem at?_cons (entries : List (String × FileTree)) (name : String) (rest : List String) :
    (directory entries).at? (name :: rest) = (entries.lookup name).bind (·.at? rest) := by
  rw [at?, child?]
  cases entries.lookup name <;> rfl

/-- Only what is below the first name on the way changes. -/
theorem at?_put_cons (new : FileTree) (entries : List (String × FileTree)) (name segment : String)
    (rest deeper : List String) :
    (put new (name :: rest) (directory entries)).at? (segment :: deeper) =
      if segment = name then (put new rest ((entries.lookup name).getD empty)).at? deeper
      else (entries.lookup segment).bind (·.at? deeper) := by
  rw [put, at?_cons, lookup_setEntry]
  split <;> rfl

/-- Everything that is in the one tree is in the other one too, and directories are directories. -/
def Keeps (before after : FileTree) : Prop :=
  ∀ place tree, before.at? place = some tree →
    ∃ later, after.at? place = some later ∧ (tree.isDirectory = true → later.isDirectory = true)

theorem keeps_put (new : FileTree) (place : List String) {tree : FileTree}
    (free : ∀ old, tree.at? place = some old → old.isDirectory = false) :
    Keeps tree (put new place tree) := by
  intro other found isFound
  induction place generalizing tree other with
  | nil =>
      have notDirectory := free tree rfl
      cases tree with
      | directory entries => cases notDirectory
      | file content =>
          cases other with
          | nil =>
              cases isFound
              exact ⟨new, rfl, fun isDirectory => by cases isDirectory⟩
          | cons segment deeper => cases isFound
  | cons name rest ih =>
      cases tree with
      | file content => exact ⟨found, isFound, id⟩
      | directory entries =>
          cases other with
          | nil =>
              cases isFound
              exact ⟨_, rfl, fun _ => rfl⟩
          | cons segment deeper =>
              rw [at?_put_cons]
              rw [at?_cons] at isFound
              by_cases same : segment = name
              · subst same
                obtain ⟨child, isChild, isFound⟩ := Option.bind_eq_some_iff.mp isFound
                have freeBelow : ∀ old, child.at? rest = some old → old.isDirectory = false := by
                  intro old isOld
                  apply free old
                  rw [at?_cons, isChild]
                  exact isOld
                rw [if_pos rfl, isChild]
                exact ih freeBelow deeper isFound
              · rw [if_neg same]
                exact ⟨found, isFound, id⟩

/-- What has been put in a directory is there. -/
theorem at?_put (new : FileTree) (name : String) {place : List String} {tree : FileTree}
    {entries : List (String × FileTree)} (isThere : tree.at? place = some (directory entries)) :
    (put new (place ++ [name]) tree).at? (place ++ [name]) = some new := by
  induction place generalizing tree with
  | nil =>
      cases isThere
      rw [List.nil_append, at?_put_cons, if_pos rfl]
      rfl
  | cons segment rest ih =>
      cases tree with
      | file content => cases isThere
      | directory others =>
          rw [at?_cons] at isThere
          obtain ⟨child, isChild, isThere⟩ := Option.bind_eq_some_iff.mp isThere
          rw [List.cons_append, at?_put_cons, if_pos rfl, isChild]
          exact ih isThere

end FileTree

namespace FileSystem

variable {system after : FileSystem}

theorem exists_of_isDirectoryAt {place : List String}
    (isDirectory : system.isDirectoryAt place = true) :
    ∃ entries, system.root.at? place = some (.directory entries) := by
  unfold isDirectoryAt treeAt? at isDirectory
  cases found : system.root.at? place with
  | none =>
      rw [found] at isDirectory
      cases isDirectory
  | some tree =>
      rw [found] at isDirectory
      cases tree with
      | file content => cases isDirectory
      | directory entries => exact ⟨entries, rfl⟩

theorem isDirectoryAt_of_keeps (keeps : system.root.Keeps after.root) {place : List String}
    (isDirectory : system.isDirectoryAt place = true) : after.isDirectoryAt place = true := by
  obtain ⟨entries, found⟩ := exists_of_isDirectoryAt isDirectory
  obtain ⟨later, isLater, stays⟩ := keeps place _ found
  rw [isDirectoryAt, treeAt?, isLater]
  exact stays rfl

/-- A segment leads where it has led before if nothing has gone. -/
theorem follow?_of_keeps (keeps : system.root.Keeps after.root) {place entered : List String}
    {segment : String} (followed : system.follow? place segment = some entered) :
    after.follow? place segment = some entered := by
  unfold follow? at followed ⊢
  split at followed
  · next leads =>
      obtain ⟨isDirectory, isThere⟩ := (Bool.and_eq_true _ _).mp leads
      obtain ⟨tree, found⟩ := Option.isSome_iff_exists.mp isThere
      obtain ⟨later, isLater, -⟩ := keeps _ tree found
      have isThere : (after.treeAt? (next place segment)).isSome = true :=
        Option.isSome_iff_exists.mpr ⟨later, isLater⟩
      rw [isDirectoryAt_of_keeps keeps isDirectory, isThere]
      exact followed
  · cases followed

theorem foldlM_follow?_of_keeps (keeps : system.root.Keeps after.root) {segments : List String}
    {place entered : List String} (followed : segments.foldlM system.follow? place = some entered) :
    segments.foldlM after.follow? place = some entered := by
  induction segments generalizing place with
  | nil => exact followed
  | cons segment rest ih =>
      rw [List.foldlM_cons, Option.bind_eq_bind, Option.bind_eq_some_iff] at followed ⊢
      obtain ⟨inner, isInner, later⟩ := followed
      exact ⟨inner, follow?_of_keeps keeps isInner, ih later⟩

theorem keeps_put_of_free {place : List String} (new : FileTree)
    (free : system.isDirectoryAt place = false) :
    system.root.Keeps (system.put new place).root := by
  refine FileTree.keeps_put new place fun old found => ?_
  unfold isDirectoryAt treeAt? at free
  rw [found] at free
  exact free

theorem isEmpty_of_endsInName {path : Path} (named : path.EndsInName) :
    path.text.isEmpty = false := by
  rw [Bool.eq_false_iff]
  intro empty
  have segments : path.segments = [""] := by
    rw [Path.segments, String.isEmpty_iff.mp empty]
    rfl
  have nontrivial := (named "" (by rw [segments]; rfl)).1
  exact absurd nontrivial (by decide)

/-- A name leads to the entry of that name. -/
theorem next_of_isName (place : List String) {name : String}
    (isName : Path.isTrivial name = false ∧ name ≠ "..") : next place name = place ++ [name] := by
  rw [next, isName.1, if_neg Bool.false_ne_true, if_neg (by simpa using isName.2)]

/-- A path that ends in a name leads to the entry of that name. -/
theorem locate?_of_endsInName {path : Path} {name : String} {place : List String} {tree : FileTree}
    (named : path.EndsInName) (usable : path.isUsable = true)
    (isName : path.segments.getLast? = some name)
    (isPlace : path.segments.dropLast.foldlM system.follow? (system.start path) = some place)
    (isDirectory : system.isDirectoryAt place = true)
    (found : system.treeAt? (place ++ [name]) = some tree) :
    system.locate? path = some (place ++ [name]) := by
  have entered := next_of_isName place (named name isName)
  have last : system.follow? place name = some (place ++ [name]) := by
    rw [follow?, entered, found, isDirectory]
    rfl
  have split : path.segments = path.segments.dropLast ++ [name] :=
    (List.dropLast_append_getLast? name isName).symm
  rw [locate?, isEmpty_of_endsInName named, usable, if_neg (by decide), split, List.foldlM_append,
    isPlace]
  simpa using last

/-- A file that has been written is read at its path. -/
theorem read?_of_write? {path : Path} {content : ByteArray} (named : path.EndsInName)
    (written : system.write? path content = some after) : after.read? path = some content := by
  simp only [write?, Option.bind_eq_bind, Option.bind_eq_some_iff] at written
  obtain ⟨name, isName, place, isPlace, isWritten⟩ := written
  split at isWritten
  · next may =>
      simp only [Bool.and_eq_true, Bool.not_eq_true'] at may
      obtain ⟨⟨usable, isDirectory⟩, free⟩ := may
      obtain ⟨entries, isThere⟩ := exists_of_isDirectoryAt isDirectory
      cases isWritten
      have keeps := keeps_put_of_free (.file content) free
      have found : (system.put (.file content) (place ++ [name])).treeAt? (place ++ [name]) =
        some (.file content) := FileTree.at?_put (.file content) name isThere
      have located := locate?_of_endsInName named usable isName
        (foldlM_follow?_of_keeps keeps isPlace) (isDirectoryAt_of_keeps keeps isDirectory) found
      rw [read?, find?, located, Option.bind_some, found]
  · cases isWritten

end FileSystem

end TemplateMarkup
