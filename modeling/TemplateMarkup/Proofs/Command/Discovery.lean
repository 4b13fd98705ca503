import TemplateMarkup.Proofs.Command.Listing

/-!
# Which templates are found

A path is a template of a run if it is named and leads to a file, or if it leads to a file below a
directory that is searched, has the name of a template, and is not passed over, and no directory on the
way down to it is.  A run that can search every path lists exactly these.
-/

namespace TemplateMarkup

/-- What holds of files, and of every directory if it holds of all its entries, holds of all trees. -/
@[elab_as_elim]
theorem FileTree.induction {motive : FileTree → Prop} (file : ∀ content, motive (file content))
    (directory : ∀ entries, (∀ name tree, (name, tree) ∈ entries → motive tree) →
      motive (directory entries)) :
    ∀ tree, motive tree
  | .file content => file content
  | .directory entries => directory entries fun _ tree _ => induction file directory tree
termination_by tree => sizeOf tree
decreasing_by
  have smaller := List.sizeOf_lt_of_mem (by assumption)
  simp only [Prod.mk.sizeOf_spec] at smaller
  simp only [FileTree.directory.sizeOf_spec]
  omega

/-- Names that lead down from a tree to a file. -/
inductive FileTree.LeadsToFile : FileTree → List String → Prop where
  | file (content : ByteArray) : LeadsToFile (.file content) []
  | within {name : String} {tree : FileTree} {names : List String}
      {entries : List (String × FileTree)} (isEntry : (name, tree) ∈ entries)
      (leads : LeadsToFile tree names) : LeadsToFile (.directory entries) (name :: names)

/-- The path that goes down from another one by some names. -/
def Path.descend (path : Path) (names : List String) : Path :=
  names.foldl (fun path name => path.join ⟨name⟩) path

@[simp]
theorem Path.descend_nil (path : Path) : path.descend [] = path :=
  rfl

@[simp]
theorem Path.descend_cons (path : Path) (name : String) (names : List String) :
    path.descend (name :: names) = (path.join ⟨name⟩).descend names :=
  rfl

namespace Settings

/-- The name of the file ends with an extension that is set. -/
def HasTemplateName (settings : Settings) (path : Path) : Prop :=
  ∃ name, path.fileName? = some name ∧
    ∃ extension ∈ settings.extensions, extension.toList <:+ name.toList

/-- A pattern matches the path, as it is named in the workspace or as a whole. -/
def PassesOver (settings : Settings) (path : Path) : Prop :=
  ∃ glob ∈ settings.ignore,
    glob.isMatch (settings.inWorkspace path).text ∨ glob.isMatch path.text

variable {settings : Settings} {path : Path}

theorem isTemplate_iff : settings.isTemplate path ↔ settings.HasTemplateName path := by
  simp only [isTemplate, HasTemplateName, Option.any_eq_true, List.any_eq_true,
    List.isSuffixOf_iff_suffix]

theorem isIgnored_iff : settings.isIgnored path ↔ settings.PassesOver path := by
  simp only [isIgnored, PassesOver, List.any_eq_true, Bool.or_eq_true]

end Settings

namespace Discovery

/-- Nothing on the way down from a path by some names is passed over, its ends included. -/
def IsFreeWay (settings : Settings) (path : Path) (names : List String) : Prop :=
  ∀ way, way <+: names → ¬ settings.PassesOver (path.descend way)

variable {settings : Settings}

theorem isFreeWay_nil {path : Path} :
    IsFreeWay settings path [] ↔ ¬ settings.PassesOver path := by
  simp [IsFreeWay]

theorem isFreeWay_cons {path : Path} {name : String} {names : List String} :
    IsFreeWay settings path (name :: names) ↔
      ¬ settings.PassesOver path ∧ IsFreeWay settings (path.join ⟨name⟩) names := by
  constructor
  · intro free
    refine ⟨free [] (List.nil_prefix), fun way isPrefix => ?_⟩
    exact free (name :: way) (List.cons_prefix_cons.mpr ⟨rfl, isPrefix⟩)
  · rintro ⟨isFree, free⟩ way isPrefix
    cases way with
    | nil => exact isFree
    | cons first way =>
        obtain ⟨rfl, isBelow⟩ := List.cons_prefix_cons.mp isPrefix
        exact free way isBelow

theorem mem_templatesInEntries {path found : Path} {entries : List (String × FileTree)} :
    found ∈ templatesInEntries settings path entries ↔
      ∃ name tree, (name, tree) ∈ entries ∧ found ∈ templatesIn settings (path.join ⟨name⟩) tree := by
  induction entries with
  | nil => simp [templatesInEntries]
  | cons entry rest ih =>
      rw [templatesInEntries, List.mem_append, ih]
      constructor
      · rintro (isFirst | ⟨name, tree, isEntry, isBelow⟩)
        · exact ⟨entry.1, entry.2, List.mem_cons_self, isFirst⟩
        · exact ⟨name, tree, .tail _ isEntry, isBelow⟩
      · rintro ⟨name, tree, isEntry, isBelow⟩
        rcases List.mem_cons.mp isEntry with rfl | isLater
        · exact .inl isBelow
        · exact .inr ⟨name, tree, isLater, isBelow⟩

/-- The walk finds the file at the end of a free way, if it has the name of a template. -/
theorem mem_templatesIn_of_leadsToFile {tree : FileTree} {names : List String} {path : Path}
    (leads : tree.LeadsToFile names) (named : settings.HasTemplateName (path.descend names))
    (free : IsFreeWay settings path names) :
    path.descend names ∈ templatesIn settings path tree := by
  induction leads generalizing path with
  | file content =>
      rw [isFreeWay_nil, ← Settings.isIgnored_iff, Bool.not_eq_true] at free
      rw [Path.descend_nil, ← Settings.isTemplate_iff] at named
      rw [Path.descend_nil, templatesIn, named, free]
      exact List.mem_singleton_self path
  | within isEntry leads ih =>
      obtain ⟨isFree, free⟩ := isFreeWay_cons.mp free
      rw [← Settings.isIgnored_iff] at isFree
      rw [templatesIn, if_neg isFree, mem_templatesInEntries]
      exact ⟨_, _, isEntry, ih named free⟩

/-- Whatever the walk finds is a file at the end of a free way. -/
theorem exists_leadsToFile_of_mem_templatesIn {tree : FileTree} {path found : Path}
    (isFound : found ∈ templatesIn settings path tree) :
    ∃ names, tree.LeadsToFile names ∧ found = path.descend names ∧
      settings.HasTemplateName found ∧ IsFreeWay settings path names := by
  induction tree using FileTree.induction generalizing path with
  | file content =>
      rw [templatesIn] at isFound
      split at isFound
      · next accepted =>
          rw [Bool.and_eq_true, Settings.isTemplate_iff, Bool.not_eq_true', Bool.eq_false_iff,
            ne_eq, Settings.isIgnored_iff] at accepted
          rw [List.mem_singleton.mp isFound]
          exact ⟨[], .file content, rfl, accepted.1, isFreeWay_nil.mpr accepted.2⟩
      · cases isFound
  | directory entries ih =>
      rw [templatesIn] at isFound
      split at isFound
      · cases isFound
      · next isFree =>
          rw [Settings.isIgnored_iff] at isFree
          obtain ⟨name, tree, isEntry, isBelow⟩ := mem_templatesInEntries.mp isFound
          obtain ⟨names, leads, isPath, named, free⟩ := ih name tree isEntry isBelow
          exact ⟨name :: names, .within isEntry leads, isPath, named,
            isFreeWay_cons.mpr ⟨isFree, free⟩⟩

variable {system : FileSystem} {arguments : Arguments} {path : Path}

/-- A path to be searched: one that is named and does not stand for standard input, as it is seen from
the workspace, or the workspace if nothing is named. -/
def IsRoot (settings : Settings) (arguments : Arguments) (root : Path) : Prop :=
  (∃ path ∈ arguments.paths, path.components ≠ Arguments.standardInput.components ∧
      root = settings.workspace.join path) ∨
    arguments.paths = [] ∧ root = settings.workspace

/-- A path that a run should list.  A file that is named need not have the name of a template, and no
pattern keeps it out. -/
inductive IsSought (system : FileSystem) (settings : Settings) (arguments : Arguments) :
    Path → Prop where
  | named {root : Path} {content : ByteArray} (isRoot : IsRoot settings arguments root)
      (isFile : system.find? root = some (.file content)) :
      IsSought system settings arguments root
  | below {root : Path} {entries : List (String × FileTree)} {names : List String}
      (isRoot : IsRoot settings arguments root)
      (isDirectory : system.find? root = some (.directory entries))
      (leads : (FileTree.directory entries).LeadsToFile names)
      (named : settings.HasTemplateName (root.descend names))
      (free : IsFreeWay settings root names) :
      IsSought system settings arguments (root.descend names)

theorem mem_searchPaths : path ∈ arguments.searchPaths ↔
    path ∈ arguments.paths ∧ path.components ≠ Arguments.standardInput.components := by
  rw [Arguments.searchPaths, List.mem_filter, Bool.not_eq_true', Bool.eq_false_iff, ne_eq,
    Path.isSame, beq_iff_eq, ne_comm]

/-- Nothing is named if there is no path to search and nothing to read from standard input. -/
theorem paths_eq_nil_iff :
    (arguments.searchPaths.isEmpty && !arguments.readsInput) = true ↔ arguments.paths = [] := by
  unfold Arguments.searchPaths Arguments.readsInput
  cases arguments.paths with
  | nil => exact ⟨fun _ => rfl, fun _ => rfl⟩
  | cons first rest =>
      refine ⟨fun none => ?_, nofun⟩
      cases isInput : Arguments.standardInput.isSame first <;> simp [isInput] at none

theorem mem_roots : path ∈ roots settings arguments ↔ IsRoot settings arguments path := by
  have isSearched : path ∈ arguments.searchPaths.map settings.workspace.join ↔
      ∃ named ∈ arguments.paths, named.components ≠ Arguments.standardInput.components ∧
        path = settings.workspace.join named := by
    simp only [List.mem_map, mem_searchPaths, and_assoc, eq_comm]
  simp only [roots, IsRoot, List.isEmpty_map]
  split
  · next none =>
      have noPaths := paths_eq_nil_iff.mp none
      simp [noPaths]
  · next some =>
      rw [isSearched]
      simp [mt paths_eq_nil_iff.mpr some]

theorem finds_iff_isSought :
    Finds system settings arguments path ↔ IsSought system settings arguments path := by
  constructor
  · rintro ⟨root, isRoot, ⟨⟨content, isFile⟩, rfl⟩ | ⟨entries, isDirectory, isFound⟩⟩
    · exact .named (mem_roots.mp isRoot) isFile
    · obtain ⟨names, leads, rfl, named, free⟩ := exists_leadsToFile_of_mem_templatesIn isFound
      exact .below (mem_roots.mp isRoot) isDirectory leads named free
  · intro sought
    cases sought with
    | named isRoot isFile => exact ⟨path, mem_roots.mpr isRoot, .inl ⟨⟨_, isFile⟩, rfl⟩⟩
    | @below root entries names isRoot isDirectory leads named free =>
        exact ⟨root, mem_roots.mpr isRoot,
          .inr ⟨entries, isDirectory, mem_templatesIn_of_leadsToFile leads named free⟩⟩

theorem exists_error_iff :
    (∃ failure, templates system settings arguments = .error failure) ↔
      ∃ root, IsRoot settings arguments root ∧ system.find? root = none := by
  constructor
  · rintro ⟨failure, fails⟩
    by_contra none
    have areThere : ∀ root ∈ roots settings arguments, (system.find? root).isSome := by
      intro root isRoot
      rw [Option.isSome_iff_ne_none]
      exact fun isMissing => none ⟨root, mem_roots.mp isRoot, isMissing⟩
    rw [templates_eq_ok areThere] at fails
    cases fails
  · rintro ⟨root, isRoot, isMissing⟩
    cases ends : templates system settings arguments with
    | error failure => exact ⟨failure, rfl⟩
    | ok paths =>
        have isThere := isSome_find?_of_templates ends root (mem_roots.mpr isRoot)
        rw [isMissing] at isThere
        cases isThere

/-- A run fails exactly if a path to be searched leads nowhere.  Otherwise it lists what it should, in
the order of the components of the paths, and no two paths with the same components. -/
theorem templates_exactly (system : FileSystem) (settings : Settings) (arguments : Arguments) :
    ((∃ failure, templates system settings arguments = .error failure) ↔
      ∃ root, IsRoot settings arguments root ∧ system.find? root = none) ∧
    ∀ paths, templates system settings arguments = .ok paths →
      (paths.Pairwise fun first second =>
        List.compareLex compare first.components second.components = .lt) ∧
      (∀ path ∈ paths, IsSought system settings arguments path) ∧
      ∀ path, IsSought system settings arguments path →
        ∃ listed ∈ paths, listed.components = path.components := by
  refine ⟨exists_error_iff, fun paths finds => ?_⟩
  have listing := isListing_of_templates finds
  refine ⟨listing.sorted, fun path listed => ?_, fun path sought => ?_⟩
  · exact finds_iff_isSought.mp (listing.found path listed)
  · obtain ⟨listed, isListed, same⟩ := listing.complete path (finds_iff_isSought.mpr sought)
    exact ⟨listed, isListed, beq_iff_eq.mp same⟩

/-- A directory, one inside it, one that is passed over, and a file without the name of a template. -/
def overlapSystem : FileSystem :=
  ⟨.directory [("w", .directory [("pages", .directory [
    ("blog", .directory [("post.tmph.html", .file .empty)]),
    ("dist", .directory [("old.tmph.html", .file .empty)]),
    ("index.tmph.html", .file .empty), ("readme.md", .file .empty)])])], ["w"]⟩

def overlapSettings : Settings :=
  ⟨⟨"/w"⟩, [".tmph.html"], ["**/dist/**"].filterMap Glob.read?⟩

/-- The inner directory is named, the outer one, and a file in another spelling. -/
def overlapArguments : Arguments :=
  { Arguments.blank with
    paths := [⟨"pages/blog"⟩, ⟨"-"⟩, ⟨"pages/"⟩, ⟨"./pages//readme.md"⟩] }

def overlapTemplates : List Path :=
  [⟨"/w/pages/blog/post.tmph.html"⟩, ⟨"/w/pages/index.tmph.html"⟩, ⟨"/w/./pages//readme.md"⟩]

theorem templates_exactly_overlap :
    templates overlapSystem overlapSettings overlapArguments = .ok overlapTemplates ∧
      (overlapTemplates.Pairwise fun first second =>
        List.compareLex compare first.components second.components = .lt) ∧
      (∀ path ∈ overlapTemplates,
        IsSought overlapSystem overlapSettings overlapArguments path) ∧
      ∀ path, IsSought overlapSystem overlapSettings overlapArguments path →
        ∃ listed ∈ overlapTemplates, listed.components = path.components := by
  have areThere : ∀ root ∈ roots overlapSettings overlapArguments,
      (overlapSystem.find? root).isSome := by decide +kernel
  have areReached : (roots overlapSettings overlapArguments).flatMap
      (reached overlapSystem overlapSettings) =
        ⟨"/w/pages/blog/post.tmph.html"⟩ :: overlapTemplates := by decide +kernel
  have finds : templates overlapSystem overlapSettings overlapArguments = .ok overlapTemplates := by
    rw [templates_of_reached_inOrder areThere areReached (by decide +kernel)]
    exact congrArg _ (by decide +kernel)
  exact ⟨finds, (templates_exactly _ _ _).2 _ finds⟩

end Discovery

end TemplateMarkup
