import TemplateMarkup.Proofs.Command.Stream
import TemplateMarkup.Proofs.Files.Places

/-!
# Files for the data of templates

A run with a directory for data writes a file there for each template that has some.  The file is
named for the template, so it is below the directory unless the name leads out of the workspace, and
two templates have two files unless their names start in different places or one of them is taken for
the name of standard input.
-/

namespace TemplateMarkup

namespace Discovery

variable {settings : Settings} {found : Path}

mutual

theorem isFrom_of_mem_templatesIn {path : Path} (isFrom : path.IsFrom settings.workspace)
    (tree : FileTree) (member : found ∈ templatesIn settings path tree) :
    found.IsFrom settings.workspace := by
  cases tree with
  | file content =>
      rw [templatesIn] at member
      split at member
      · rwa [List.mem_singleton.mp member]
      · cases member
  | directory entries =>
      rw [templatesIn] at member
      split at member
      · cases member
      · exact isFrom_of_mem_templatesInEntries isFrom entries member

theorem isFrom_of_mem_templatesInEntries {path : Path} (isFrom : path.IsFrom settings.workspace)
    (entries : List (String × FileTree))
    (member : found ∈ templatesInEntries settings path entries) : found.IsFrom settings.workspace := by
  cases entries with
  | nil => cases member
  | cons entry rest =>
      rcases List.mem_append.mp member with isFirst | isLater
      · exact isFrom_of_mem_templatesIn (isFrom.join ⟨entry.1⟩) entry.2 isFirst
      · exact isFrom_of_mem_templatesInEntries isFrom rest isLater

end

/-- A search starts in the workspace, except at absolute paths. -/
theorem isFrom_of_finds {system : FileSystem} {arguments : Arguments} {path : Path}
    (finds : Finds system settings arguments path) : path.IsFrom settings.workspace := by
  obtain ⟨root, isRoot, finds⟩ := finds
  have isFrom : root.IsFrom settings.workspace := by
    simp only [roots] at isRoot
    split at isRoot
    · rw [List.mem_singleton.mp isRoot]
      exact .inr (List.prefix_refl _)
    · obtain ⟨other, -, rfl⟩ := List.mem_map.mp isRoot
      exact Path.isFrom_join settings.workspace other
  rcases finds with ⟨-, rfl⟩ | ⟨entries, -, member⟩
  · exact isFrom
  · exact isFrom_of_mem_templatesIn isFrom (.directory entries) member

end Discovery

namespace Run

/-- The name that the file of a template is named for. -/
def filedName (name : String) : String := if name == inputName then "stdin" else name

/-- The path of the file of a template in the directory for data. -/
def filing (name : String) : Path :=
  ⟨String.ofList ((filedName name).toList.dropWhile (· == '/')) ++ ".json"⟩

theorem target_eq_join (outDir : Path) (name : String) :
    target outDir name = outDir.join (filing name) :=
  rfl

theorem isAbsolute_filing (name : String) : (filing name).isAbsolute = false := by
  rw [filing, Path.isAbsolute, String.toList_append, String.toList_ofList, beq_eq_false_iff_ne]
  have starts := List.head?_dropWhile_not (· == '/') (filedName name).toList
  cases stripped : (filedName name).toList.dropWhile (· == '/') with
  | nil => decide
  | cons character rest =>
      rw [stripped] at starts
      simpa using starts

/-- The file is named for the last segment, and is where the steps before it lead. -/
theorem exists_steps_filing (name : String) : ∃ start last,
    (filing name).steps = start ++ [.name (last ++ ".json")] ∧
      Path.steps ⟨filedName name⟩ = start ++ (Path.component? last).toList := by
  have noSlash : '/' ∉ ".json".toList := by decide
  obtain ⟨start, last, alone, together⟩ := Path.exists_segments_append
    (String.ofList ((filedName name).toList.dropWhile (· == '/'))) noSlash
  have named : (filing name).EndsInName :=
    Path.endsInName_of_append String.toList_append (by decide) (by decide)
  obtain ⟨nontrivial, notUp⟩ := named (last ++ ".json") (by rw [filing, together]; simp)
  have means : Path.component? (last ++ ".json") = some (.name (last ++ ".json")) := by
    rw [Path.component?, nontrivial, if_neg Bool.false_ne_true, if_neg (by simpa using notUp)]
  refine ⟨start.filterMap Path.component?, last, ?_, ?_⟩
  · rw [filing, Path.steps, together, List.filterMap_append]
    rw [List.filterMap_cons_some means, List.filterMap_nil]
  · rw [← Path.steps_dropSlashes, Path.steps, alone, List.filterMap_append, List.filterMap_cons]
    cases Path.component? last <;> rfl

/-- The file of a template is below the directory for data wherever that is. -/
def Stays (name : String) : Prop := PathComponent.stayWithin 0 (filing name).steps = true

instance (name : String) : Decidable (Stays name) := inferInstanceAs (Decidable (_ = true))

/-- The names that lead from the directory for data to the file of a template. -/
def filed (name : String) : List String := (filing name).steps.foldl FileSystem.enter []

theorem filed_ne_nil (name : String) : filed name ≠ [] := by
  obtain ⟨start, last, steps, -⟩ := exists_steps_filing name
  rw [filed, steps, List.foldl_append]
  exact List.concat_ne_nil _ _

variable {system after : FileSystem}

theorem foldl_enter_base (base : List String) {steps : List PathComponent}
    (stay : PathComponent.stayWithin 0 steps = true) :
    steps.foldl FileSystem.enter base = base ++ steps.foldl FileSystem.enter [] := by
  have below : steps.foldl FileSystem.enter (base ++ []) =
      base ++ steps.foldl FileSystem.enter [] := FileSystem.foldl_enter_append base stay
  rwa [List.append_nil] at below

/-- The place of the file of a template. -/
def filePlace (system : FileSystem) (outDir : Path) (name : String) : List String :=
  system.resolve (target outDir name)

theorem filePlace_of_stays (outDir : Path) {name : String} (stays : Stays name) :
    filePlace system outDir name = system.resolve outDir ++ filed name := by
  rw [filePlace, target_eq_join, FileSystem.resolve_join (isAbsolute_filing name),
    foldl_enter_base _ stays]
  rfl

theorem exists_filed {name : String} (stays : Stays name) : ∃ start last,
    PathComponent.stayWithin 0 start = true ∧
      filed name = start.foldl FileSystem.enter [] ++ [last ++ ".json"] ∧
      Path.steps ⟨filedName name⟩ = start ++ (Path.component? last).toList := by
  obtain ⟨start, last, steps, ownSteps⟩ := exists_steps_filing name
  rw [Stays, steps] at stays
  refine ⟨start, last, PathComponent.stayWithin_of_append stays, ?_, ownSteps⟩
  rw [filed, steps, List.foldl_append]
  rfl

/-- Names with the same file lead to the same place, wherever they start. -/
theorem foldl_enter_of_filed {name other : String} (stays : Stays name) (stays' : Stays other)
    (same : filed name = filed other) (base : List String) :
    (Path.steps ⟨filedName name⟩).foldl FileSystem.enter base =
      (Path.steps ⟨filedName other⟩).foldl FileSystem.enter base := by
  obtain ⟨start, last, stay, file, steps⟩ := exists_filed stays
  obtain ⟨start', last', stay', file', steps'⟩ := exists_filed stays'
  rw [file, file'] at same
  obtain ⟨sameStart, sameLast⟩ := List.append_inj' same rfl
  have sameLast : last = last' := by
    have text := congrArg String.toList (List.cons.inj sameLast).1
    rw [String.toList_append, String.toList_append] at text
    exact String.toList_inj.mp (List.append_cancel_right text)
  rw [steps, steps', List.foldl_append, List.foldl_append, foldl_enter_base base stay,
    foldl_enter_base base stay', sameStart, sameLast]

/-- The name is filed as it is: it does not lead out of the directory for data, and it is not taken for
that of standard input. -/
structure IsProper (name : String) : Prop where
  stays : Stays name
  different : name ≠ inputName

theorem IsProper.filedName_eq {name : String} (proper : IsProper name) : filedName name = name := by
  rw [filedName, if_neg (by simpa using proper.different)]

/-- The name of a template in a file. -/
def nameOf (settings : Settings) (path : Path) : String := (settings.inWorkspace path).text

/-- Where the name of a template starts: at the root if it is absolute, and else in the workspace. -/
def origin (system : FileSystem) (settings : Settings) (path : Path) : List String :=
  if (settings.inWorkspace path).isAbsolute then [] else system.resolve settings.workspace

/-- A template is where its name leads from its origin. -/
theorem resolve_eq_origin {settings : Settings} {path : Path}
    (isFrom : path.IsFrom settings.workspace) : system.resolve path =
      (settings.inWorkspace path).steps.foldl FileSystem.enter (origin system settings path) := by
  rw [origin, Settings.inWorkspace]
  cases isRest : path.relativeTo? settings.workspace with
  | none =>
      have absolute : path.isAbsolute = true := by
        refine isFrom.resolve_right fun isBelow => ?_
        obtain ⟨rest, isSome⟩ := Path.exists_relativeTo? isBelow
        rw [isRest] at isSome
        cases isSome
      rw [Option.getD_none, absolute, if_pos rfl, FileSystem.resolve_eq_steps, FileSystem.start,
        absolute, if_pos rfl]
  | some rest =>
      rw [Option.getD_some, FileSystem.resolve_eq_components, FileSystem.resolve_eq_components,
        Path.components_of_relativeTo? isRest, List.foldl_append, Path.components_eq_steps rest,
        Path.leading?]
      split
      · rfl
      · split <;> rfl

/-- A template is where its file says, seen from its origin. -/
theorem resolve_eq_of_filed {settings : Settings} {path : Path} {name : String}
    (isFrom : path.IsFrom settings.workspace) (proper : IsProper (nameOf settings path))
    (stays : Stays name) (same : filed (nameOf settings path) = filed name) :
    system.resolve path = (Path.steps ⟨filedName name⟩).foldl FileSystem.enter
      (origin system settings path) := by
  have ends := foldl_enter_of_filed proper.stays stays same (origin system settings path)
  rw [proper.filedName_eq] at ends
  rw [resolve_eq_origin isFrom]
  exact ends

theorem prepare_keeps {target : Path} (prepared : prepare system target = .ok after) :
    after.fileAt? = system.fileAt? ∧ after.here = system.here := by
  unfold prepare at prepared
  split at prepared
  · cases prepared
    exact ⟨rfl, rfl⟩
  · split at prepared
    · next areMade =>
        cases prepared
        exact FileSystem.makeDirectories?_keeps areMade
    · cases prepared

theorem resolve_congr (here : after.here = system.here) : after.resolve = system.resolve := by
  funext path
  rw [FileSystem.resolve, FileSystem.resolve, FileSystem.start, FileSystem.start, here]

/-- The data of a template is the content at its target. -/
theorem fileAt?_write {outDir : Path} {name : String} {template : Template}
    (isWritten : write system (target outDir name) template = .ok after) :
    (∀ place, after.fileAt? place =
      if place = filePlace system outDir name then some (Report.document template).toUTF8
      else system.fileAt? place) ∧ after.here = system.here := by
  unfold write at isWritten
  cases prepares : prepare system (target outDir name) with
  | error failure =>
      rw [prepares] at isWritten
      cases isWritten
  | ok prepared =>
      rw [prepares] at isWritten
      obtain ⟨files, here⟩ := prepare_keeps prepares
      simp only [bind, Except.bind] at isWritten
      split at isWritten
      · next written =>
          cases isWritten
          obtain ⟨content, here'⟩ :=
            FileSystem.fileAt?_write? (endsInName_target outDir name) written
          rw [resolve_congr here, files] at content
          exact ⟨content, here'.trans here⟩
      · cases isWritten

/-- What is written for a template, and where. -/
def written? (system : FileSystem) (outDir : Path) (outcome : TemplateOutcome) :
    Option (List String × ByteArray) :=
  match outcome.result with
  | .ok template =>
      some (filePlace system outDir outcome.name, (Report.document template).toUTF8)
  | .error _ => none

theorem written?_congr (here : after.here = system.here) (outDir : Path) :
    written? after outDir = written? system outDir := by
  unfold written? filePlace
  rw [resolve_congr here]

theorem fileAt?_writeOutcome {outDir : Path} {outcome : TemplateOutcome}
    (isWritten : writeOutcome (some outDir) system outcome = .ok after) :
    (∀ place, after.fileAt? place =
      ((written? system outDir outcome).toList.lookup place).or (system.fileAt? place)) ∧
    after.here = system.here := by
  obtain ⟨name, result⟩ := outcome
  cases result with
  | error fault =>
      have same : system = after := Except.ok.inj isWritten
      rw [same]
      exact ⟨fun _ => rfl, rfl⟩
  | ok template =>
      have isWritten : write system (target outDir name) template = .ok after := isWritten
      obtain ⟨content, here⟩ := fileAt?_write isWritten
      refine ⟨fun place => ?_, here⟩
      rw [content, written?, Option.toList_some, List.lookup_cons, List.lookup_nil]
      by_cases same : place = filePlace system outDir name
      · rw [if_pos same, beq_iff_eq.mpr same]
        rfl
      · rw [if_neg same, beq_eq_false_iff_ne.mpr same]
        rfl

/-- At each place there is what has been written there last, or what has been there before. -/
theorem fileAt?_writeAll {outDir : Path} {read : List TemplateOutcome}
    (areWritten : writeAll (some outDir) system read = .ok after) (place : List String) :
    after.fileAt? place =
      ((read.filterMap (written? system outDir)).reverse.lookup place).or (system.fileAt? place) := by
  induction read generalizing system with
  | nil =>
      cases areWritten
      rfl
  | cons outcome rest ih =>
      rw [writeAll, List.foldlM_cons] at areWritten
      cases isWritten : writeOutcome (some outDir) system outcome with
      | error failure =>
          rw [isWritten] at areWritten
          cases areWritten
      | ok next =>
          rw [isWritten] at areWritten
          obtain ⟨content, here⟩ := fileAt?_writeOutcome isWritten
          -- The list is reversed, so that what is written later is found first.
          rw [ih areWritten, written?_congr here, content, ← Option.or_assoc, ← List.lookup_append]
          congr 2
          cases written : written? system outDir outcome with
          | none => rw [List.filterMap_cons_none written, Option.toList_none, List.append_nil]
          | some file =>
              rw [List.filterMap_cons_some written, List.reverse_cons, Option.toList_some]

variable {arguments : Arguments} {settings : Settings} {input : ByteArray}

theorem foldl_report_of_isSome {reported : Reported} (stopped : reported.failure?.isSome)
    (read : List TemplateOutcome) : read.foldl (report arguments) reported = reported := by
  induction read with
  | nil => rfl
  | cons outcome rest ih =>
      rw [List.foldl_cons, report, if_pos stopped]
      exact ih

theorem writeOutcome_of_report {reported : Reported} {outcome : TemplateOutcome}
    (goesOn : (report arguments reported outcome).failure? = none) :
    writeOutcome arguments.outDir reported.system outcome =
      .ok (report arguments reported outcome).system := by
  obtain ⟨name, result⟩ := outcome
  unfold report writeOutcome at *
  split at goesOn
  · next stopped =>
      rw [goesOn] at stopped
      cases stopped
  · next isOpen =>
      rw [if_neg isOpen]
      cases result with
      | error fault => rfl
      | ok template =>
          cases outDir : arguments.outDir with
          | none => rfl
          | some directory =>
              rw [outDir] at goesOn
              simp only at goesOn ⊢
              cases isWritten : write reported.system (target directory name) template with
              | error failure =>
                  rw [isWritten] at goesOn
                  cases goesOn
              | ok system => rfl

/-- A run that reports everything has written everything. -/
theorem writeAll_of_foldl_report {reported : Reported} {read : List TemplateOutcome}
    (ends : (read.foldl (report arguments) reported).failure? = none) :
    writeAll arguments.outDir reported.system read =
      .ok (read.foldl (report arguments) reported).system := by
  induction read generalizing reported with
  | nil => rfl
  | cons outcome rest ih =>
      rw [List.foldl_cons] at ends ⊢
      cases goesOn : (report arguments reported outcome).failure? with
      | some failure =>
          have stopped : (report arguments reported outcome).failure?.isSome := by rw [goesOn]; rfl
          rw [foldl_report_of_isSome stopped, goesOn] at ends
          cases ends
      | none =>
          rw [writeAll, List.foldlM_cons, writeOutcome_of_report goesOn]
          exact ih ends

theorem exists_read_of_finished {format : OutputFormat} {numbers : RunSummary}
    (finished : (perform system arguments input).ending = .finished format numbers) :
    ∃ read, outcomes system (workspace system arguments) arguments input = .ok read ∧
      writeAll arguments.outDir system read = .ok (perform system arguments input).system := by
  unfold perform at finished ⊢
  cases areRead : outcomes system (workspace system arguments) arguments input with
  | error failure =>
      rw [areRead] at finished
      cases finished
  | ok read =>
      rw [areRead] at finished
      simp only at finished
      cases ends : (reportAll arguments system read).failure? with
      | some failure =>
          rw [ends] at finished
          cases finished
      | none => exact ⟨read, rfl, writeAll_of_foldl_report ends⟩

theorem exists_lookup_of_mem {files : List (List String × ByteArray)} {place : List String}
    {content : ByteArray} (member : (place, content) ∈ files) :
    ∃ last, files.lookup place = some last := by
  rw [← Option.isSome_iff_exists, List.lookup_isSome_iff]
  exact ⟨(place, content), member, beq_self_eq_true place⟩

theorem exists_written (system : FileSystem) (outDir : Path) {outcome : TemplateOutcome}
    (hasData : outcome.isFault = false) :
    ∃ content, written? system outDir outcome =
      some (filePlace system outDir outcome.name, content) := by
  unfold TemplateOutcome.isFault at hasData
  split at hasData
  · next template result => exact ⟨_, by rw [written?, result]⟩
  · cases hasData

theorem exists_of_lookup_written {outDir : Path} {read : List TemplateOutcome} {place : List String}
    {content : ByteArray}
    (found : (read.filterMap (written? system outDir)).reverse.lookup place = some content) :
    ∃ outcome ∈ read, ∃ template, outcome.result = .ok template ∧
      place = filePlace system outDir outcome.name ∧
      content = (Report.document template).toUTF8 := by
  obtain ⟨before, later, split, -⟩ := List.lookup_eq_some_iff.mp found
  have member : (place, content) ∈ (read.filterMap (written? system outDir)).reverse :=
    split ▸ List.mem_append_cons_self
  obtain ⟨outcome, isRead, isWritten⟩ := List.mem_filterMap.mp (List.mem_reverse.mp member)
  unfold written? at isWritten
  split at isWritten
  · next template result =>
      obtain ⟨isPlace, isContent⟩ := Prod.mk.inj (Option.some.inj isWritten)
      exact ⟨outcome, isRead, template, result, isPlace.symm, isContent.symm⟩
  · cases isWritten

/-- What a run has written to a directory for data, and where. -/
structure IsFiled (system : FileSystem) (settings : Settings) (outDir : Path) (paths : List Path)
    (read : List TemplateOutcome) (after : FileSystem) : Prop where
  /-- Only the files of templates with data have changed. -/
  changed : ∀ place, after.fileAt? place ≠ system.fileAt? place →
    ∃ outcome ∈ read, outcome.isFault = false ∧ place = filePlace system outDir outcome.name
  /-- At the file of a template with data there is the data of a template with that file. -/
  holds : ∀ outcome ∈ read, outcome.isFault = false →
    ∃ other ∈ read, ∃ template, other.result = .ok template ∧
      filePlace system outDir outcome.name = filePlace system outDir other.name ∧
      after.fileAt? (filePlace system outDir outcome.name) =
        some (Report.document template).toUTF8
  /-- A file that stays is below the directory. -/
  below : ∀ outcome ∈ read, Stays outcome.name → ∃ names, names ≠ [] ∧
    filePlace system outDir outcome.name = system.resolve outDir ++ names
  /-- Templates with one origin and two places have two files. -/
  apart : ∀ path ∈ paths, ∀ other ∈ paths,
    IsProper (nameOf settings path) → IsProper (nameOf settings other) →
    origin system settings path = origin system settings other →
    system.resolve path ≠ system.resolve other →
      filePlace system outDir (nameOf settings path) ≠
        filePlace system outDir (nameOf settings other)
  /-- So have a template and the one from standard input, unless it is where that one is filed. -/
  inputApart : ∀ path ∈ paths, IsProper (nameOf settings path) →
    system.resolve path ≠ origin system settings path ++ ["stdin"] →
      filePlace system outDir (nameOf settings path) ≠ filePlace system outDir inputName

variable {outDir : Path} {paths : List Path} {read : List TemplateOutcome}

theorem filed_eq_of_filePlace {name other : String} (stays : Stays name) (stays' : Stays other)
    (same : filePlace system outDir name = filePlace system outDir other) :
    filed name = filed other := by
  rw [filePlace_of_stays outDir stays, filePlace_of_stays outDir stays'] at same
  exact List.append_cancel_left same

theorem isFiled_of_writeAll (listing : Discovery.IsListing system settings arguments paths)
    (areWritten : writeAll (some outDir) system read = .ok after) :
    IsFiled system settings outDir paths read after where
  changed place differs := by
    rw [fileAt?_writeAll areWritten] at differs
    cases found : (read.filterMap (written? system outDir)).reverse.lookup place with
    | none =>
        rw [found] at differs
        exact absurd rfl differs
    | some content =>
        obtain ⟨outcome, isRead, template, result, isPlace, -⟩ := exists_of_lookup_written found
        exact ⟨outcome, isRead, by rw [TemplateOutcome.isFault, result], isPlace⟩
  holds outcome isRead hasData := by
    obtain ⟨content, isWritten⟩ := exists_written system outDir hasData
    have member := List.mem_filterMap.mpr ⟨outcome, isRead, isWritten⟩
    obtain ⟨last, found⟩ := exists_lookup_of_mem (List.mem_reverse.mpr member)
    obtain ⟨other, isOther, data, hasResult, isPlace, isData⟩ := exists_of_lookup_written found
    refine ⟨other, isOther, data, hasResult, isPlace, ?_⟩
    rw [fileAt?_writeAll areWritten, found, isData]
    rfl
  below outcome _ stays := ⟨filed outcome.name, filed_ne_nil _, filePlace_of_stays outDir stays⟩
  apart path isListed other isListed' proper proper' origins places same := by
    have isFrom := Discovery.isFrom_of_finds (listing.found path isListed)
    have isFrom' := Discovery.isFrom_of_finds (listing.found other isListed')
    have file := filed_eq_of_filePlace proper.stays proper'.stays same
    have place : system.resolve path = _ := resolve_eq_of_filed isFrom proper proper'.stays file
    have place' : system.resolve other = _ := resolve_eq_of_filed isFrom' proper' proper'.stays rfl
    exact places (by rw [place, place', origins])
  inputApart path isListed proper place same := by
    have isFrom := Discovery.isFrom_of_finds (listing.found path isListed)
    have staysInput : Stays inputName := by decide
    have file := filed_eq_of_filePlace proper.stays staysInput same
    have steps : Path.steps ⟨filedName inputName⟩ = [.name "stdin"] := by decide
    have isPlace : system.resolve path = _ := resolve_eq_of_filed isFrom proper staysInput file
    rw [steps] at isPlace
    exact place isPlace

/-- A workspace, and a template beside it. -/
def besideSystem : FileSystem :=
  ⟨.directory [("w", .directory [("b.html", .file "<b>x</b>".toUTF8),
    ("site", .directory [("a.tmph.html", .file "<p>x</p>".toUTF8), ("stdin", .file "x".toUTF8)])])],
    ["w"]⟩

def besideLine : List String :=
  ["-w", "site", "--output=json", "--out-dir", "out", "../b.html", "a.tmph.html", "stdin", "-"]

def besideArguments : Arguments :=
  { Arguments.blank with
    paths := [⟨"../b.html"⟩, ⟨"a.tmph.html"⟩, ⟨"stdin"⟩, ⟨"-"⟩]
    workspace := some ⟨"site"⟩
    output := some .json
    outDir := some ⟨"out"⟩ }

def besideSettings : Settings :=
  (Settings.load besideSystem (workspace besideSystem besideArguments)
    besideArguments).toOption.getD ⟨⟨""⟩, [], []⟩

def besidePaths : List Path := [⟨"site/../b.html"⟩, ⟨"site/a.tmph.html"⟩, ⟨"site/stdin"⟩]

/-- What becomes of the templates of the workspace, the one beside it and the one from standard
input. -/
def besideRead : List TemplateOutcome :=
  ((readInput "x".toUTF8).map fun outcome =>
    besidePaths.map (readTemplate besideSystem besideSettings) ++ [outcome]).toOption.getD []

/-- What is there after their data has been written. -/
def besideAfter : FileSystem :=
  (writeAll besideArguments.outDir besideSystem besideRead).toOption.getD besideSystem

theorem outcomes_beside :
    outcomes besideSystem (workspace besideSystem besideArguments) besideArguments "x".toUTF8 =
      .ok besideRead := by
  have loads : Settings.load besideSystem (workspace besideSystem besideArguments) besideArguments =
      .ok besideSettings := eq_ok_getD (by decide +kernel) _
  have areThere : ∀ root ∈ Discovery.roots besideSettings besideArguments,
      (besideSystem.find? root).isSome := by decide +kernel
  have reached : (Discovery.roots besideSettings besideArguments).flatMap
      (Discovery.reached besideSystem besideSettings) = besidePaths := by decide +kernel
  have finds := Discovery.templates_of_reached areThere reached (by decide +kernel)
  have readsInput : besideArguments.readsInput = true := by rfl
  rw [outcomes_eq loads finds, readsInput, if_pos rfl]
  exact eq_ok_getD (by decide +kernel) []

theorem command_beside : command besideSystem besideLine "x".toUTF8 =
    ⟨.finished .json ⟨4, 0⟩, Report.lines (besideRead.map (Report.valueOf (some ⟨"out"⟩))), "",
      besideAfter⟩ := by
  have accepted : Arguments.read besideLine = .run besideArguments := by rfl
  have written : writeAll besideArguments.outDir besideSystem besideRead = .ok besideAfter :=
    eq_ok_getD (by decide +kernel) besideSystem
  have counted : count besideRead = ⟨4, 0⟩ := by decide +kernel
  rw [command, accepted]
  exact (perform_json rfl outcomes_beside written).trans (by rw [counted]; rfl)

end Run

end TemplateMarkup
