import TemplateMarkup.Proofs.Command.Descent
import TemplateMarkup.Proofs.Command.Stream
import TemplateMarkup.Proofs.Glob.Directories

/-!
# Templates in copies of a workspace

The patterns that always apply pass over everything below certain directories.  They are held against
the path as a whole too, so a workspace that lies below such a directory, or is one, hides all that is
in it.  In any other workspace the templates are found by their names alone, wherever the workspace is.
-/

namespace TemplateMarkup

namespace Settings

/-- The patterns that always apply, as they are read. -/
def defaultPatterns : List Glob := defaultIgnore.filterMap Glob.read?

/-- The directories that are always passed over. -/
def hiddenNames : List String := ["node_modules", "dist", ".git"]

theorem defaultIgnore_eq : defaultIgnore = hiddenNames.map fun name => "**/" ++ name ++ "/**" := by
  decide

theorem read?_below_of_mem {name : String} (isHidden : name ∈ hiddenNames) :
    Glob.read? ("**/" ++ name ++ "/**") = some (Glob.below name) := by
  have plain : ∀ name ∈ hiddenNames, ∀ character ∈ name.toList, Glob.IsPlain character := by
    decide
  exact Glob.read?_below (plain name isHidden)

theorem defaultPatterns_eq : defaultPatterns = hiddenNames.map Glob.below := by
  rw [defaultPatterns, defaultIgnore_eq, List.filterMap_map, ← List.filterMap_eq_map]
  exact List.filterMap_congr fun name => read?_below_of_mem

/-- The path leads to a directory that is always passed over, or through one. -/
def IsHidden (path : Path) : Prop := ∃ name ∈ hiddenNames, name ∈ path.segments

instance (path : Path) : Decidable (IsHidden path) :=
  inferInstanceAs (Decidable (∃ name ∈ hiddenNames, name ∈ path.segments))

theorem isFileName_of_mem_hiddenNames : ∀ name ∈ hiddenNames, Path.IsFileName name := by
  decide

variable {settings : Settings} {path : Path}

/-- The patterns that always apply pass over what lies below one of their directories. -/
theorem passesOver_iff_of_default (isDefault : settings.ignore = defaultPatterns) :
    settings.PassesOver path ↔ ∃ name ∈ hiddenNames,
      name ∈ (settings.inWorkspace path).segments.dropLast ∨ name ∈ path.segments.dropLast := by
  rw [PassesOver, isDefault, defaultPatterns_eq]
  constructor
  · rintro ⟨glob, isDefault, matched⟩
    obtain ⟨name, isHidden, rfl⟩ := List.mem_map.mp isDefault
    have noSlash := (isFileName_of_mem_hiddenNames name isHidden).noSlash
    rw [Glob.isMatch_below noSlash, Glob.isMatch_below noSlash] at matched
    exact ⟨name, isHidden, matched⟩
  · rintro ⟨name, isHidden, isBelow⟩
    have noSlash := (isFileName_of_mem_hiddenNames name isHidden).noSlash
    refine ⟨Glob.below name, List.mem_map_of_mem isHidden, ?_⟩
    rw [Glob.isMatch_below noSlash, Glob.isMatch_below noSlash]
    exact isBelow

end Settings

namespace Discovery

open Settings

variable {settings : Settings} {names : List String}

theorem inWorkspace_descend (areNames : ∀ name ∈ names, Path.IsFileName name)
    (notEmpty : settings.workspace.text.isEmpty = false) :
    settings.inWorkspace (settings.workspace.descend names) = .ofSegments names := by
  rw [inWorkspace, Path.relativeTo?_descend areNames notEmpty, Option.getD_some]

/-- Outside of hidden directories a way is free if it leads through none. -/
theorem isFreeWay_iff_of_not_isHidden (isDefault : settings.ignore = defaultPatterns)
    (notEmpty : settings.workspace.text.isEmpty = false)
    (isOpen : ¬ IsHidden settings.workspace) (areNames : ∀ name ∈ names, Path.IsFileName name) :
    IsFreeWay settings settings.workspace names ↔ ∀ name ∈ hiddenNames, name ∉ names.dropLast := by
  constructor
  · intro free name isHidden onWay
    refine free names List.prefix_rfl ((passesOver_iff_of_default isDefault).mpr ?_)
    rw [inWorkspace_descend areNames notEmpty]
    exact ⟨name, isHidden, .inl (Path.dropLast_segments_ofSegments areNames ▸ onWay)⟩
  · intro notOnWay way isPrefix isPassed
    have areNames : ∀ name ∈ way, Path.IsFileName name :=
      fun name member => areNames name (isPrefix.subset member)
    have notOnWay : ∀ name ∈ hiddenNames, name ∉ way.dropLast := by
      obtain ⟨later, rfl⟩ := isPrefix
      intro name isHidden member
      refine notOnWay name isHidden ?_
      rw [List.dropLast_append]
      split
      · exact member
      · exact List.mem_append_left _ (List.dropLast_subset _ member)
    obtain ⟨start, rest, continues⟩ := Path.exists_continues_descend areNames notEmpty
    obtain ⟨name, isHidden, isBelow⟩ := (passesOver_iff_of_default isDefault).mp isPassed
    rw [inWorkspace_descend areNames notEmpty, Path.dropLast_segments_ofSegments areNames] at isBelow
    rcases isBelow with onWay | isSegment
    · exact notOnWay name isHidden onWay
    · rcases continues.mem_dropLast isSegment with isBefore | onWay
      · exact isOpen ⟨name, isHidden, isBefore⟩
      · exact notOnWay name isHidden onWay

/-- No way leads down to a file from a hidden directory. -/
theorem not_isFreeWay_of_isHidden (isDefault : settings.ignore = defaultPatterns)
    (notEmpty : settings.workspace.text.isEmpty = false)
    (hides : IsHidden settings.workspace) (areNames : ∀ name ∈ names, Path.IsFileName name)
    (isMore : names ≠ []) : ¬ IsFreeWay settings settings.workspace names := by
  obtain ⟨name, isHidden, isSegment⟩ := hides
  obtain ⟨start, rest, continues⟩ := Path.exists_continues_descend areNames notEmpty
  intro free
  refine free names List.prefix_rfl ((passesOver_iff_of_default isDefault).mpr ?_)
  exact ⟨name, isHidden, .inr (continues.mem_of_mem_segments isMore
    (isFileName_of_mem_hiddenNames name isHidden) isSegment)⟩

variable {system : FileSystem} {arguments : Arguments} {entries : List (String × FileTree)}

theorem isRoot_iff_of_noPaths (noPaths : arguments.paths = []) {root : Path} :
    IsRoot settings arguments root ↔ root = settings.workspace := by
  simp [IsRoot, noPaths]

/-- A run without paths finds the files with the name of a template at the ends of free ways down from
the workspace. -/
theorem finds_iff_of_noPaths (noPaths : arguments.paths = [])
    (isThere : system.find? settings.workspace = some (.directory entries)) {path : Path} :
    Finds system settings arguments path ↔ ∃ names, (FileTree.directory entries).LeadsToFile names ∧
      settings.HasTemplateName path ∧ IsFreeWay settings settings.workspace names ∧
      path = settings.workspace.descend names := by
  have isRoot {root : Path} : IsRoot settings arguments root ↔ root = settings.workspace :=
    isRoot_iff_of_noPaths noPaths
  rw [finds_iff_isSought]
  constructor
  · intro sought
    cases sought with
    | named root isFile =>
        rw [isRoot.mp root, isThere] at isFile
        cases isFile
    | below root isDirectory leads named free =>
        obtain rfl := isRoot.mp root
        cases isThere.symm.trans isDirectory
        exact ⟨_, leads, named, free, rfl⟩
  · rintro ⟨names, leads, named, free, rfl⟩
    exact .below (isRoot.mpr rfl) isThere leads named free

/-- All names on the ways down to files are names that files can have. -/
def HasFileNames (entries : List (String × FileTree)) : Prop :=
  ∀ names, (FileTree.directory entries).LeadsToFile names → ∀ name ∈ names, Path.IsFileName name

/-- Names that lead down to a template: no directory that is always passed over is among them, and the
last one ends with an extension. -/
structure IsTemplateWay (entries : List (String × FileTree)) (extensions names : List String) :
    Prop where
  leads : (FileTree.directory entries).LeadsToFile names
  named : ∃ name, names.getLast? = some name ∧ ∃ extension ∈ extensions,
    extension.toList <:+ name.toList
  isFree : ∀ name ∈ hiddenNames, name ∉ names.dropLast

theorem finds_iff_isTemplateWay (isDefault : settings.ignore = defaultPatterns)
    (noPaths : arguments.paths = [])
    (isThere : system.find? settings.workspace = some (.directory entries))
    (areNames : HasFileNames entries) (notEmpty : settings.workspace.text.isEmpty = false)
    {path : Path} :
    Finds system settings arguments path ↔ ¬ IsHidden settings.workspace ∧
      ∃ names, IsTemplateWay entries settings.extensions names ∧
        path = settings.workspace.descend names := by
  rw [finds_iff_of_noPaths noPaths isThere]
  constructor
  · rintro ⟨names, leads, named, free, rfl⟩
    have areNames := areNames names leads
    have isMore := leads.ne_nil
    have isOpen : ¬ IsHidden settings.workspace := fun hides =>
      not_isFreeWay_of_isHidden isDefault notEmpty hides areNames isMore free
    rw [HasTemplateName, Path.fileName?_descend areNames notEmpty isMore] at named
    exact ⟨isOpen, names, ⟨leads, named,
      (isFreeWay_iff_of_not_isHidden isDefault notEmpty isOpen areNames).mp free⟩, rfl⟩
  · rintro ⟨isOpen, names, isWay, rfl⟩
    have areNames := areNames names isWay.leads
    refine ⟨names, isWay.leads, ?_, ?_, rfl⟩
    · rw [HasTemplateName, Path.fileName?_descend areNames notEmpty isWay.leads.ne_nil]
      exact isWay.named
    · exact (isFreeWay_iff_of_not_isHidden isDefault notEmpty isOpen areNames).mpr isWay.isFree

end Discovery

theorem FileSystem.isEmpty_of_find? {system : FileSystem} {path : Path} {tree : FileTree}
    (isThere : system.find? path = some tree) : path.text.isEmpty = false := by
  rw [Bool.eq_false_iff]
  intro isEmpty
  rw [find?, locate?, isEmpty, Bool.true_or, if_pos rfl] at isThere
  cases isThere

namespace Settings

variable {system : FileSystem} {workspace : Path} {arguments : Arguments}

theorem mapM_readPattern {patterns : List String}
    (areRead : ∀ pattern ∈ patterns, (Glob.read? pattern).isSome) :
    patterns.mapM readPattern = .ok (patterns.filterMap Glob.read?) := by
  induction patterns with
  | nil => rfl
  | cons pattern rest ih =>
      obtain ⟨isRead, areRead⟩ := List.forall_mem_cons.mp areRead
      obtain ⟨glob, isGlob⟩ := Option.isSome_iff_exists.mp isRead
      rw [List.mapM_cons, readPattern, isGlob, ih areRead, List.filterMap_cons_some isGlob]
      rfl

/-- Without further patterns those that always apply are the only ones. -/
theorem load_of_noPatterns {extensions : List String}
    (loads : SettingsFile.load system workspace arguments = .ok ⟨extensions, []⟩)
    (noPatterns : arguments.ignore = []) : load system workspace arguments =
      .ok ⟨workspace, if extensions.isEmpty then [defaultExtension] else extensions,
        defaultPatterns⟩ := by
  have areRead : ∀ pattern ∈ defaultIgnore, (Glob.read? pattern).isSome := by
    rw [defaultIgnore_eq, List.forall_mem_map]
    intro name isHidden
    rw [read?_below_of_mem isHidden]
    rfl
  have read : defaultIgnore.mapM readPattern = .ok defaultPatterns := by
    rw [defaultPatterns]
    exact mapM_readPattern areRead
  rw [load, loads]
  simp only [bind, Except.bind, noPatterns, List.append_nil, read]
  rfl

end Settings

/-- The same command line for another workspace. -/
def Arguments.within (arguments : Arguments) (workspace : Path) : Arguments :=
  { arguments with workspace := some workspace }

namespace Run

open Settings Discovery

variable {system : FileSystem} {arguments : Arguments} {input : ByteArray} {settings : Settings}

/-- The names under which a run reports its templates. -/
def reportedNames (system : FileSystem) (arguments : Arguments) (input : ByteArray) :
    Except RunFailure (List String) :=
  (outcomes system (workspace system arguments) arguments input).map (·.map TemplateOutcome.name)

/-- The workspace holds a tree, and a run in it has the patterns that always apply, and no others. -/
structure SearchesTree (system : FileSystem) (arguments : Arguments)
    (entries : List (String × FileTree)) (settings : Settings) : Prop where
  isThere : system.find? settings.workspace = some (.directory entries)
  loads : Settings.load system settings.workspace (arguments.within settings.workspace) = .ok settings
  isDefault : settings.ignore = defaultPatterns

variable {entries : List (String × FileTree)}

theorem SearchesTree.reportedNames_eq (searches : SearchesTree system arguments entries settings)
    (input : ByteArray) (noPaths : arguments.paths = []) {paths : List Path}
    (finds : templates system settings (arguments.within settings.workspace) = .ok paths) :
    reportedNames system (arguments.within settings.workspace) input =
      .ok (paths.map fun path => (settings.inWorkspace path).text) := by
  have noInput : (arguments.within settings.workspace).readsInput = false := by
    rw [Arguments.readsInput, Arguments.within, noPaths]
    rfl
  rw [reportedNames, outcomes_eq searches.loads finds, noInput, if_neg Bool.false_ne_true,
    Except.map, List.map_map]
  rfl

/-- A run in a workspace reports the ways down to templates, unless the workspace hides them. -/
theorem exists_reportedNames (input : ByteArray) (noPaths : arguments.paths = [])
    (areNames : HasFileNames entries) (searches : SearchesTree system arguments entries settings) :
    ∃ found, reportedNames system (arguments.within settings.workspace) input = .ok found ∧
      ∀ name, name ∈ found ↔ ¬ IsHidden settings.workspace ∧ ∃ names,
        IsTemplateWay entries settings.extensions names ∧ name = (Path.ofSegments names).text := by
  have notEmpty := FileSystem.isEmpty_of_find? searches.isThere
  have isFound {path : Path} :
      Finds system settings (arguments.within settings.workspace) path ↔ _ :=
    finds_iff_isTemplateWay searches.isDefault noPaths searches.isThere areNames notEmpty
  have areThere : ∀ root ∈ roots settings (arguments.within settings.workspace),
      (system.find? root).isSome := by
    intro root isRoot
    rw [(isRoot_iff_of_noPaths noPaths).mp (mem_roots.mp isRoot), searches.isThere]
    rfl
  obtain ⟨paths, finds, listing⟩ := exists_listing areThere
  have isNamed {names : List String} (isWay : IsTemplateWay entries settings.extensions names) :
      (settings.inWorkspace (settings.workspace.descend names)).text = (Path.ofSegments names).text :=
    congrArg Path.text (inWorkspace_descend (areNames names isWay.leads) notEmpty)
  refine ⟨_, searches.reportedNames_eq input noPaths finds, fun name => ?_⟩
  rw [List.mem_map]
  constructor
  · rintro ⟨path, listed, rfl⟩
    obtain ⟨isOpen, names, isWay, rfl⟩ := isFound.mp (listing.found path listed)
    exact ⟨isOpen, names, isWay, isNamed isWay⟩
  · rintro ⟨isOpen, names, isWay, rfl⟩
    obtain ⟨path, listed, same⟩ := listing.complete _ (isFound.mpr ⟨isOpen, names, isWay, rfl⟩)
    obtain ⟨-, names', isWay', rfl⟩ := isFound.mp (listing.found path listed)
    have sameNames : names' = names := by
      rw [Path.isSame, beq_iff_eq,
        Path.components_descend (areNames names' isWay'.leads) notEmpty,
        Path.components_descend (areNames names isWay.leads) notEmpty] at same
      exact List.map_injective_iff.mpr (fun _ _ => PathComponent.name.inj)
        (List.append_cancel_left same)
    exact ⟨_, listed, sameNames ▸ isNamed isWay'⟩

theorem reportedNames_of_isHidden (input : ByteArray) (noPaths : arguments.paths = [])
    (areNames : HasFileNames entries) (searches : SearchesTree system arguments entries settings)
    (hides : IsHidden settings.workspace) :
    reportedNames system (arguments.within settings.workspace) input = .ok [] := by
  obtain ⟨found, isFound, areFound⟩ := exists_reportedNames input noPaths areNames searches
  have none : found = [] := List.eq_nil_iff_forall_not_mem.mpr fun name member =>
    ((areFound name).mp member).1 hides
  rw [isFound, none]

/-- Runs in two workspaces that hold the same tree report the same templates, wherever the workspaces
are, unless one of them is hidden.  In a hidden workspace there are none. -/
theorem reportedNames_of_copies (system : FileSystem) (arguments : Arguments) (input : ByteArray)
    (entries : List (String × FileTree)) (first second : Settings) (noPaths : arguments.paths = [])
    (areNames : HasFileNames entries) (inFirst : SearchesTree system arguments entries first)
    (inSecond : SearchesTree system arguments entries second)
    (sameExtensions : first.extensions = second.extensions) :
    ∃ found found',
      reportedNames system (arguments.within first.workspace) input = .ok found ∧
      reportedNames system (arguments.within second.workspace) input = .ok found' ∧
      (¬ IsHidden first.workspace → ¬ IsHidden second.workspace →
        ∀ name, name ∈ found ↔ name ∈ found') ∧
      (IsHidden first.workspace → found = []) ∧ (IsHidden second.workspace → found' = []) := by
  obtain ⟨found, isFound, areFound⟩ := exists_reportedNames input noPaths areNames inFirst
  obtain ⟨found', isFound', areFound'⟩ := exists_reportedNames input noPaths areNames inSecond
  refine ⟨found, found', isFound, isFound', fun isOpen isOpen' name => ?_, fun hides => ?_,
    fun hides => ?_⟩
  · rw [areFound, areFound', sameExtensions]
    exact and_congr_left fun _ => iff_of_true isOpen isOpen'
  · exact Except.ok.inj
      (isFound.symm.trans (reportedNames_of_isHidden input noPaths areNames inFirst hides))
  · exact Except.ok.inj
      (isFound'.symm.trans (reportedNames_of_isHidden input noPaths areNames inSecond hides))

/-- A template, and another one below a directory that is passed over. -/
def pages : List (String × FileTree) :=
  [("a.tmph.html", .file "x".toUTF8), ("dist", .directory [("b.tmph.html", .file .empty)])]

/-- Three copies of a tree. -/
def copiesSystem : FileSystem :=
  ⟨.directory [("dist", .directory pages), ("site", .directory pages),
    ("copy", .directory pages)], []⟩

def copySettings (workspace : Path) : Settings := ⟨workspace, [defaultExtension], defaultPatterns⟩

theorem hasFileNames_pages : HasFileNames pages := by
  have areNames : ∀ name ∈ ["a.tmph.html", "dist", "b.tmph.html"], Path.IsFileName name := by
    decide
  intro names leads name member
  refine areNames name ?_
  cases leads with
  | within isEntry leads =>
      simp only [pages, List.mem_cons, List.not_mem_nil, or_false, Prod.mk.injEq] at isEntry
      rcases isEntry with ⟨rfl, rfl⟩ | ⟨rfl, rfl⟩
      · cases leads
        simp_all
      · cases leads with
        | within isEntry leads =>
            obtain ⟨rfl, rfl⟩ := Prod.mk.inj (List.mem_singleton.mp isEntry)
            cases leads
            simp_all

theorem searchesTree_copy {workspace : Path} (place : List String)
    (isPlace : copiesSystem.locate? workspace = some place)
    (isTree : copiesSystem.treeAt? place = some (.directory pages))
    (noFile : SettingsFile.locate? copiesSystem workspace (Arguments.blank.within workspace) = none) :
    SearchesTree copiesSystem .blank pages (copySettings workspace) := by
  have loads : SettingsFile.load copiesSystem workspace (Arguments.blank.within workspace) =
      .ok ⟨[], []⟩ := by
    rw [SettingsFile.load, noFile]
    rfl
  have loaded := load_of_noPatterns loads rfl
  have isThere : copiesSystem.find? workspace = some (.directory pages) := by
    rw [FileSystem.find?, isPlace]
    exact isTree
  exact ⟨isThere, loaded, by rw [copySettings]⟩

theorem searchesTree_dist : SearchesTree copiesSystem .blank pages (copySettings ⟨"dist"⟩) :=
  searchesTree_copy ["dist"] (by decide +kernel) rfl (by decide +kernel)

theorem searchesTree_site : SearchesTree copiesSystem .blank pages (copySettings ⟨"site"⟩) :=
  searchesTree_copy ["site"] (by decide +kernel) rfl (by decide +kernel)

theorem searchesTree_slashCopy :
    SearchesTree copiesSystem .blank pages (copySettings ⟨"/copy"⟩) :=
  searchesTree_copy ["copy"] (by decide +kernel) rfl (by decide +kernel)

/-- Two copies that are not hidden show the same templates. -/
theorem reportedNames_openCopies :
    HasFileNames pages ∧
      SearchesTree copiesSystem .blank pages (copySettings ⟨"site"⟩) ∧
      SearchesTree copiesSystem .blank pages (copySettings ⟨"/copy"⟩) ∧
      ∃ found found',
        reportedNames copiesSystem (Arguments.blank.within ⟨"site"⟩) .empty = .ok found ∧
        reportedNames copiesSystem (Arguments.blank.within ⟨"/copy"⟩) .empty = .ok found' ∧
        ∀ name, name ∈ found ↔ name ∈ found' := by
  obtain ⟨found, found', isFound, isFound', same, -, -⟩ :=
    reportedNames_of_copies copiesSystem .blank .empty pages (copySettings ⟨"site"⟩)
      (copySettings ⟨"/copy"⟩) rfl hasFileNames_pages searchesTree_site searchesTree_slashCopy rfl
  exact ⟨hasFileNames_pages, searchesTree_site, searchesTree_slashCopy, found, found', isFound,
    isFound', same (by decide +kernel) (by decide +kernel)⟩

/-- The copy in the hidden directory shows no template, and another one does. -/
theorem reportedNames_hiddenCopy :
    HasFileNames pages ∧
      SearchesTree copiesSystem .blank pages (copySettings ⟨"dist"⟩) ∧
      SearchesTree copiesSystem .blank pages (copySettings ⟨"site"⟩) ∧
      reportedNames copiesSystem (Arguments.blank.within ⟨"dist"⟩) .empty = .ok [] ∧
      reportedNames copiesSystem (Arguments.blank.within ⟨"site"⟩) .empty = .ok ["a.tmph.html"] := by
  have inDist := searchesTree_dist
  have inSite := searchesTree_site
  have none := reportedNames_of_isHidden .empty rfl hasFileNames_pages inDist (by decide +kernel)
  have areThere : ∀ root ∈ roots (copySettings ⟨"site"⟩) (Arguments.blank.within ⟨"site"⟩),
      (copiesSystem.find? root).isSome := by decide +kernel
  have areReached : (roots (copySettings ⟨"site"⟩) (Arguments.blank.within ⟨"site"⟩)).flatMap
      (reached copiesSystem (copySettings ⟨"site"⟩)) = [⟨"site/a.tmph.html"⟩] := by decide +kernel
  have finds := templates_of_reached areThere areReached (List.pairwise_singleton _ _)
  have some := inSite.reportedNames_eq .empty rfl finds
  have named : ((copySettings ⟨"site"⟩).inWorkspace ⟨"site/a.tmph.html"⟩).text = "a.tmph.html" := by
    decide +kernel
  rw [List.map_singleton, named] at some
  exact ⟨hasFileNames_pages, inDist, inSite, none, some⟩

end Run

end TemplateMarkup
