import TemplateMarkup.Proofs.Command.Stream
import TemplateMarkup.Proofs.Files.Contents

/-!
# Runs that differ in one template

A search goes by names and directories and never opens a template, and a template is read without
regard to the others.  So a change to one template, however bad it has become, leaves everything that
is said of the others as it was.  The template from standard input is no exception as long as it is
text.  If it is none, the run stops before anything has been reported.
-/

namespace TemplateMarkup

section Search

variable {place : List String} {first second : FileSystem} {settings : Settings}
  {arguments : Arguments} {workspace : Path}

theorem SettingsFile.locate?_eq_of_differAt (differ : FileSystem.DifferAt place first second) :
    locate? second workspace arguments = locate? first workspace arguments := by
  rw [locate?, locate?, differ.isFile_eq]

/-- The settings are the same as long as the settings file is. -/
theorem Settings.load_eq_of_differAt (differ : FileSystem.DifferAt place first second)
    (elsewhere : ∀ path, SettingsFile.locate? first workspace arguments = some path →
      first.locate? path ≠ some place) :
    load second workspace arguments = load first workspace arguments := by
  have file : SettingsFile.load second workspace arguments =
      SettingsFile.load first workspace arguments := by
    rw [SettingsFile.load, SettingsFile.load, SettingsFile.locate?_eq_of_differAt differ]
    cases located : SettingsFile.locate? first workspace arguments with
    | none => rfl
    | some path =>
        simp only [SettingsFile.readAt, differ.readText?_eq (elsewhere path located)]
  rw [load, load, file]

namespace Discovery

mutual

/-- The templates of a tree are found by their names. -/
theorem templatesIn_blank (settings : Settings) (path : Path) (tree : FileTree) :
    templatesIn settings path tree.blank = templatesIn settings path tree := by
  cases tree with
  | file content => rfl
  | directory entries =>
      rw [FileTree.blank, templatesIn, templatesIn, templatesInEntries_blankEntries]

theorem templatesInEntries_blankEntries (settings : Settings) (path : Path)
    (entries : List (String × FileTree)) :
    templatesInEntries settings path (FileTree.blankEntries entries) =
      templatesInEntries settings path entries := by
  cases entries with
  | nil => rfl
  | cons entry rest =>
      rw [FileTree.blankEntries, templatesInEntries, templatesInEntries, templatesIn_blank,
        templatesInEntries_blankEntries]

end

theorem templatesOf_blank (system : FileSystem) :
    templatesOf system.blank settings = templatesOf system settings := by
  funext root
  rw [templatesOf, templatesOf, system.find?_blank]
  rcases system.find? root with _ | content | entries
  · rfl
  · rfl
  · exact congrArg Except.ok (templatesIn_blank settings root (.directory entries))

/-- A search finds the same whatever the files contain. -/
theorem templates_eq_of_differAt (differ : FileSystem.DifferAt place first second) :
    templates second settings arguments = templates first settings arguments := by
  rw [templates, templates, ← templatesOf_blank second, ← differ.blank, templatesOf_blank]

end Discovery

end Search

namespace Run

/-- What is changed between two runs. -/
inductive Change where
  | file (place : List String)
  | input
  deriving DecidableEq, Repr

/-- The text of a template is what has been changed. -/
def Change.Affects (system : FileSystem) : Change → TemplateSource → Prop
  | .file place, .file path => system.locate? path = some place
  | .input, .input => True
  | _, _ => False

/-- Two runs are given the same but for the bytes of one file, which is not the settings file, or but
for standard input.  If the runs read it, it is text for both of them or for neither. -/
inductive DifferBy (arguments : Arguments) :
    Change → FileSystem → ByteArray → FileSystem → ByteArray → Prop where
  | file {place : List String} {first second : FileSystem} {input : ByteArray}
      (differ : FileSystem.DifferAt place first second)
      (elsewhere : ∀ path, SettingsFile.locate? first (workspace first arguments) arguments =
        some path → first.locate? path ≠ some place) :
      DifferBy arguments (.file place) first input second input
  | input {system : FileSystem} {input other : ByteArray}
      (alike : arguments.readsInput = true →
        (String.fromUTF8? input).isSome = (String.fromUTF8? other).isSome) :
      DifferBy arguments .input system input system other

/-- Each source that is not affected has the same outcome in both runs. -/
def SameBut (affected : TemplateSource → Prop) (sources : List TemplateSource)
    (read other : List TemplateOutcome) : Prop :=
  List.Forall₂ (fun source outcomes => ¬ affected source → outcomes.1 = outcomes.2) sources
    (read.zip other)

/-- What two runs report. -/
inductive Agree (arguments : Arguments) (change : Change) (first : FileSystem) (input : ByteArray)
    (second : FileSystem) (other : ByteArray) : RunOutcome → RunOutcome → Prop where
  /-- They stop at the same failure, with nothing reported. -/
  | failed (failure : RunFailure) :
      Agree arguments change first input second other ⟨.failed failure, "", "", first⟩
        ⟨.failed failure, "", "", second⟩
  /-- They account for the same templates, and the unaffected ones have the same lines. -/
  | finished {settings : Settings} {paths : List Path} {read read' : List TemplateOutcome}
      {outcome outcome' : RunOutcome}
      (loads : Settings.load first (workspace first arguments) arguments = .ok settings)
      (stream : IsStream first settings arguments input paths read outcome)
      (stream' : IsStream second settings arguments other paths read' outcome')
      (same : SameBut (change.Affects first) (TemplateSource.ofRun arguments paths) read read') :
      Agree arguments change first input second other outcome outcome'

variable {arguments : Arguments} {change : Change} {first second : FileSystem}
  {input other : ByteArray}

/-- What two runs that differ in one template have in common before they report. -/
structure Alike (arguments : Arguments) (change : Change) (first : FileSystem) (input : ByteArray)
    (second : FileSystem) (other : ByteArray) : Prop where
  settings : Settings.load second (workspace second arguments) arguments =
    Settings.load first (workspace first arguments) arguments
  templates : ∀ settings, Discovery.templates second settings arguments =
    Discovery.templates first settings arguments
  files : ∀ settings path, ¬ change.Affects first (.file path) →
    readTemplate first settings path = readTemplate second settings path
  inputs : arguments.readsInput = true →
    (∃ failure, readInput input = .error failure ∧ readInput other = .error failure) ∨
      ∃ outcome outcome', readInput input = .ok outcome ∧ readInput other = .ok outcome' ∧
        (¬ change.Affects first .input → outcome = outcome')

theorem readInput_eq_error (noText : String.fromUTF8? input = none) :
    readInput input = .error .unreadableInput := by
  rw [readInput, noText]

/-- Two inputs can be read, or neither, if both of them are text or neither is. -/
theorem readInput_alike
    (alike : (String.fromUTF8? input).isSome = (String.fromUTF8? other).isSome) :
    (∃ failure, readInput input = .error failure ∧ readInput other = .error failure) ∨
      ∃ outcome outcome', readInput input = .ok outcome ∧ readInput other = .ok outcome' := by
  cases isText : (String.fromUTF8? input).isSome with
  | false =>
      have noText := Option.isSome_eq_false_iff.mp isText
      have noText' := Option.isSome_eq_false_iff.mp (alike.symm.trans isText)
      exact .inl ⟨_, readInput_eq_error (Option.isNone_iff_eq_none.mp noText),
        readInput_eq_error (Option.isNone_iff_eq_none.mp noText')⟩
  | true =>
      obtain ⟨outcome, isRead⟩ := exists_readInput isText
      obtain ⟨outcome', isRead'⟩ := exists_readInput (alike.symm.trans isText)
      exact .inr ⟨outcome, outcome', isRead, isRead'⟩

theorem alike_of_differBy (differ : DifferBy arguments change first input second other) :
    Alike arguments change first input second other := by
  cases differ with
  | @file place _ _ _ differ elsewhere =>
      have here : workspace second arguments = workspace first arguments := by
        have here : first.blank.here = second.blank.here := congrArg FileSystem.here differ.blank
        exact congrArg (fun here => arguments.workspace.getD ⟨"/" ++ String.intercalate "/" here⟩)
          here.symm
      refine ⟨?_, fun settings => Discovery.templates_eq_of_differAt differ, ?_, fun _ => ?_⟩
      · rw [here]
        exact Settings.load_eq_of_differAt differ elsewhere
      · intro settings path unaffected
        rw [readTemplate, readTemplate, differ.readText?_eq unaffected]
      · cases readInput input with
        | error failure => exact .inl ⟨failure, rfl, rfl⟩
        | ok outcome => exact .inr ⟨outcome, outcome, rfl, rfl, fun _ => rfl⟩
  | input alike =>
      refine ⟨rfl, fun _ => rfl, fun _ _ _ => rfl, fun readsInput => ?_⟩
      rcases readInput_alike (alike readsInput) with fails | ⟨outcome, outcome', isRead, isRead'⟩
      · exact .inl fails
      · exact .inr ⟨outcome, outcome', isRead, isRead', fun isOther => absurd trivial isOther⟩

/-- The outcomes of files that are not affected are the same. -/
theorem Alike.sameBut_files (alike : Alike arguments change first input second other)
    (settings : Settings) (paths : List Path) :
    SameBut (change.Affects first) (paths.map .file) (paths.map (readTemplate first settings))
      (paths.map (readTemplate second settings)) := by
  rw [SameBut, List.zip_map', List.forall₂_map_left_iff, List.forall₂_map_right_iff,
    List.forall₂_same]
  exact fun path _ unaffected => alike.files settings path unaffected

/-- The two runs cannot read their templates, for the same reason, or they read the same ones. -/
theorem Alike.outcomes (alike : Alike arguments change first input second other) :
    (∃ failure, outcomes first (workspace first arguments) arguments input = .error failure ∧
      outcomes second (workspace second arguments) arguments other = .error failure) ∨
    ∃ settings paths read read',
      Settings.load first (workspace first arguments) arguments = .ok settings ∧
      Discovery.templates first settings arguments = .ok paths ∧
      outcomes first (workspace first arguments) arguments input = .ok read ∧
      outcomes second (workspace second arguments) arguments other = .ok read' ∧
      SameBut (change.Affects first) (TemplateSource.ofRun arguments paths) read read' := by
  rw [outcomes_eq_bind, outcomes_eq_bind, alike.settings]
  cases Settings.load first (workspace first arguments) arguments with
  | error failure => exact .inl ⟨failure, rfl, rfl⟩
  | ok settings =>
      simp only [Except.bind, alike.templates]
      cases finds : Discovery.templates first settings arguments with
      | error failure => exact .inl ⟨failure, rfl, rfl⟩
      | ok paths =>
          have files := alike.sameBut_files settings paths
          cases readsInput : arguments.readsInput with
          | false =>
              refine .inr ⟨settings, paths, _, _, rfl, finds, rfl, rfl, ?_⟩
              rw [TemplateSource.ofRun, readsInput, if_neg Bool.false_ne_true, List.append_nil]
              exact files
          | true =>
              rcases alike.inputs readsInput with ⟨failure, fails, fails'⟩ |
                ⟨outcome, outcome', isRead, isRead', same⟩
              · exact .inl ⟨failure, by rw [fails]; rfl, by rw [fails']; rfl⟩
              · refine .inr ⟨settings, paths, _, _, rfl, finds, by rw [isRead]; rfl,
                  by rw [isRead']; rfl, ?_⟩
                rw [TemplateSource.ofRun, readsInput, if_pos rfl, SameBut, List.zip_append (by simp)]
                exact List.rel_append files (.cons same .nil)

theorem writeAll_none (system : FileSystem) (read : List TemplateOutcome) :
    writeAll none system read = .ok system := by
  induction read with
  | nil => rfl
  | cons outcome rest ih =>
      have first : writeOutcome none system outcome = .ok system := by
        unfold writeOutcome
        cases outcome.result <;> rfl
      rw [writeAll, List.foldlM_cons, first]
      exact ih

/-- A change to one template leaves the lines of the others as they are. -/
theorem agree_command {written : List String} (accepted : Arguments.read written = .run arguments)
    (asks : arguments.AskForStream) (noDirectory : arguments.outDir = none)
    (differ : DifferBy arguments change first input second other) :
    Agree arguments change first input second other (command first written input)
      (command second written other) := by
  have alike := alike_of_differBy differ
  unfold command
  rw [accepted]
  rcases alike.outcomes with ⟨failure, fails, fails'⟩ |
    ⟨settings, paths, read, read', loads, finds, areRead, areRead', same⟩
  · simp only [perform, fails, fails']
    exact .failed failure
  · have loads' := alike.settings.trans loads
    have finds' := (alike.templates settings).trans finds
    exact .finished loads
      (isStream_perform asks.json (Discovery.isListing_of_templates finds)
        (becomes_outcomes loads finds areRead) areRead (noDirectory ▸ writeAll_none first read))
      (isStream_perform asks.json (Discovery.isListing_of_templates finds')
        (becomes_outcomes loads' finds' areRead') areRead' (noDirectory ▸ writeAll_none second read'))
      same

/-- Two files in the current directory, one of them with some content. -/
def pairSystem (content : ByteArray) : FileSystem :=
  ⟨.directory [("w", .directory [("a.tmph.html", .file content),
    ("b.tmph.html", .file "<p>x</p>".toUTF8)])], ["w"]⟩

def pairLine : List String := ["--output=json", "-", "."]

def pairArguments : Arguments :=
  { Arguments.blank with paths := [⟨"-"⟩, ⟨"."⟩], output := some .json }

/-- A template of the two becomes one that is no text. -/
theorem agree_pair :
    Agree pairArguments (.file ["w", "a.tmph.html"]) (pairSystem "<i>".toUTF8) "y".toUTF8
      (pairSystem ⟨#[0xFF]⟩) "y".toUTF8 (command (pairSystem "<i>".toUTF8) pairLine "y".toUTF8)
      (command (pairSystem ⟨#[0xFF]⟩) pairLine "y".toUTF8) := by
  have accepted : Arguments.read pairLine = .run pairArguments := by rfl
  have isFile : (pairSystem "<i>".toUTF8).treeAt? (["w"] ++ ["a.tmph.html"]) =
      some (.file "<i>".toUTF8) := by rfl
  have noSettings : SettingsFile.locate? (pairSystem "<i>".toUTF8)
      (workspace (pairSystem "<i>".toUTF8) pairArguments) pairArguments = none := by decide +kernel
  have differ : DifferBy pairArguments (.file ["w", "a.tmph.html"]) (pairSystem "<i>".toUTF8)
      "y".toUTF8 (pairSystem ⟨#[0xFF]⟩) "y".toUTF8 :=
    .file (FileSystem.differAt_put ⟨#[0xFF]⟩ (by rfl) isFile) fun path located => by
      rw [noSettings] at located
      cases located
  exact agree_command accepted ⟨rfl, rfl⟩ rfl differ

/-- The template from standard input is named with one of the files. -/
def loneLine : List String := ["--output=json", "-", "a.tmph.html"]

def loneArguments : Arguments :=
  { Arguments.blank with paths := [⟨"-"⟩, ⟨"a.tmph.html"⟩], output := some .json }

/-- A template with data has its line, but not if standard input is no text. -/
theorem exists_unreported :
    (∃ outcome other, outcome.name = "a.tmph.html" ∧ outcome.isFault = false ∧
      (command (pairSystem "x".toUTF8) loneLine "y".toUTF8).reports =
        Report.lines [Report.valueOf none outcome, Report.valueOf none other]) ∧
    (command (pairSystem "x".toUTF8) loneLine ⟨#[0xFF]⟩).reports = "" := by
  let system := pairSystem "x".toUTF8
  let settings : Settings :=
    (Settings.load system (workspace system loneArguments) loneArguments).toOption.getD ⟨⟨""⟩, [], []⟩
  have accepted : Arguments.read loneLine = .run loneArguments := by rfl
  have loads : Settings.load system (workspace system loneArguments) loneArguments = .ok settings :=
    eq_ok_getD (by decide +kernel) _
  have areThere : ∀ root ∈ Discovery.roots settings loneArguments, (system.find? root).isSome := by
    decide +kernel
  have reached : (Discovery.roots settings loneArguments).flatMap
      (Discovery.reached system settings) = [⟨"/w/a.tmph.html"⟩] := by decide +kernel
  have finds := Discovery.templates_of_reached areThere reached (List.pairwise_singleton _ _)
  have readsInput : loneArguments.readsInput = true := by rfl
  rw [command, command, accepted]
  constructor
  · obtain ⟨other, isRead⟩ := exists_readInput
      (by decide +kernel : (String.fromUTF8? "y".toUTF8).isSome)
    have areRead : outcomes system (workspace system loneArguments) loneArguments "y".toUTF8 =
        .ok [readTemplate system settings ⟨"/w/a.tmph.html"⟩, other] := by
      rw [outcomes_eq loads finds, readsInput, if_pos rfl, isRead]
      rfl
    have performs := perform_json rfl areRead (writeAll_none system _)
    exact ⟨_, other, by decide +kernel, by decide +kernel, congrArg RunOutcome.reports performs⟩
  · have fails : outcomes system (workspace system loneArguments) loneArguments ⟨#[0xFF]⟩ =
        .error .unreadableInput := by
      rw [outcomes_eq loads finds, readsInput, if_pos rfl, readInput_eq_error (by decide +kernel)]
      rfl
    have performs : perform system loneArguments ⟨#[0xFF]⟩ =
        ⟨.failed .unreadableInput, "", "", system⟩ := by rw [perform, fails]
    exact congrArg RunOutcome.reports performs

end Run

end TemplateMarkup
