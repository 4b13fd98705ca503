import TemplateMarkup.Proofs.Command.Listing
import TemplateMarkup.Proofs.Command.Reports

/-!
# The stream of a run

A run that reports in the JSON format writes one line for each template and one line for the summary.
The templates are those of the listing, in its order, and the one from standard input after them.  A
template without data has its line like the others, so the lines account for all templates, and the
summary counts the lines before it.
-/

namespace TemplateMarkup

/-- A result that is there is the one that is got out of it. -/
theorem eq_ok_getD {Failure Value : Type} {result : Except Failure Value}
    (isThere : result.toOption.isSome) (other : Value) :
    result = .ok (result.toOption.getD other) := by
  cases result with
  | error failure => cases isThere
  | ok value => rfl

/-- The run reports in the JSON format, and it is over when everything has been reported. -/
structure Arguments.AskForStream (arguments : Arguments) : Prop where
  json : arguments.output = some .json
  once : arguments.watch = false

/-- Where the text of a template comes from. -/
inductive TemplateSource where
  | file (path : Path)
  | input
  deriving DecidableEq, Repr

namespace TemplateSource

/-- The sources of a run that has found some paths. -/
def ofRun (arguments : Arguments) (paths : List Path) : List TemplateSource :=
  paths.map .file ++ if arguments.readsInput then [.input] else []

/-- What becomes of a template.  The name of a file is its path in the workspace. -/
inductive Becomes (system : FileSystem) (settings : Settings) (input : ByteArray) :
    TemplateSource → TemplateOutcome → Prop where
  | unreadable {path : Path} (isNoText : system.readText? path = none) :
      Becomes system settings input (.file path)
        ⟨(settings.inWorkspace path).text, .error (.unreadable path)⟩
  | file {path : Path} {text : String} (isText : system.readText? path = some text) :
      Becomes system settings input (.file path)
        ⟨(settings.inWorkspace path).text,
          (Template.parse text .start (some (settings.inWorkspace path).text)).mapError
            .structural⟩
  | input {text : String} (isText : String.fromUTF8? input = some text) :
      Becomes system settings input .input
        ⟨"<stdin>", (Template.parse text .start none).mapError .structural⟩

end TemplateSource

namespace Report

/-- What stands under `type` in an object. -/
def kind? : Json → Option String
  | .object members =>
      match members.lookup "type" with
      | some (.string kind) => some kind
      | _ => none
  | _ => none

/-- The value on the line of a template. -/
def valueOf (outDir : Option Path) (outcome : TemplateOutcome) : Json :=
  match outcome.result, outDir with
  | .error fault, _ =>
      .object
        [("code", .string fault.code),
          ("column", optionalNumber (fault.position?.map (·.column))),
          ("file", .string outcome.name),
          ("line", optionalNumber (fault.position?.map (·.line))),
          ("message", .string fault.message), ("type", .string "error")]
  | .ok template, none =>
      .object
        [("data", template.encode.sorted), ("file", .string outcome.name),
          ("type", .string "template")]
  | .ok _, some outDir =>
      .object
        [("file", .string outcome.name),
          ("output", .string (Run.target outDir outcome.name).text), ("type", .string "written")]

/-- The number of lines of the kind `error` among those with some values. -/
def errorCount (values : List Json) : Nat := values.countP (kind? · == some "error")

/-- The value on the line after the lines with some values. -/
def summaryValue (values : List Json) (milliseconds : Nat) : Json :=
  .object
    [("duration_ms", .number milliseconds),
      ("errors", .number (errorCount values)),
      ("files", .number values.length), ("type", .string "summary")]

theorem kind?_valueOf (outDir : Option Path) (outcome : TemplateOutcome) :
    kind? (valueOf outDir outcome) = some (if outcome.isFault then "error"
      else if outDir.isSome then "written" else "template") := by
  unfold valueOf TemplateOutcome.isFault
  cases outcome.result with
  | error fault => rfl
  | ok template => cases outDir <;> rfl

/-- There is a line of the kind `error` for each template without data. -/
theorem errorCount_valueOf (outDir : Option Path) (outcomes : List TemplateOutcome) :
    errorCount (outcomes.map (valueOf outDir)) = outcomes.countP (·.isFault) := by
  rw [errorCount, List.countP_map]
  refine List.countP_congr fun outcome _ => ?_
  rw [Function.comp_apply, kind?_valueOf]
  cases outcome.isFault with
  | true => simp
  | false => cases outDir.isSome <;> decide

/-- The lines with some values. -/
def lines (values : List Json) : String := String.join (values.map fun value => line value.render)

theorem lines_append_singleton (values : List Json) (value : Json) :
    lines (values ++ [value]) = lines values ++ line value.render := by
  rw [lines, List.map_append, String.join_append]
  rfl

/-- Each value is on a line of its own. -/
theorem splitOn_lines (values : List Json) :
    (lines values).toList.splitOn '\n' = values.map (·.render.toList) ++ [[]] := by
  have joined : (lines values).toList =
      ['\n'].intercalate (values.map (·.render.toList) ++ [[]]) := by
    induction values with
    | nil => rfl
    | cons value rest ih =>
        have isMore : rest.map (·.render.toList) ++ [[]] ≠ [] := List.concat_ne_nil _ _
        rw [List.map_cons, List.cons_append, List.intercalate_cons_of_ne_nil isMore, ← ih, lines,
          List.map_cons, String.join_cons, String.toList_append, line, String.toList_append]
        rfl
  rw [joined]
  refine List.splitOn_intercalate '\n' (fun text isLine isThere => ?_) (List.concat_ne_nil _ _)
  rcases List.mem_append.mp isLine with isLine | isLast
  · obtain ⟨value, -, rfl⟩ := List.mem_map.mp isLine
    exact absurd (Json.isPrintable_render value '\n' isThere) (by decide)
  · rw [List.mem_singleton.mp isLast] at isThere
    cases isThere

theorem sorted_optionalNumber (number : Option Nat) :
    (optionalNumber number).sorted = optionalNumber number := by
  cases number <;> rfl

theorem faulty_json (name : String) (fault : TemplateFault) (outDir : Option Path) :
    faulty .json name fault = line (valueOf outDir ⟨name, .error fault⟩).render := by
  simp +decide only [faulty, jsonLine, valueOf, Json.sorted, Json.sortedMembers, Json.insertSorted,
    sorted_optionalNumber, if_true, if_false]

theorem written_json (name : String) (outDir : Path) (template : Template) :
    written .json name (Run.target outDir name) =
      line (valueOf (some outDir) ⟨name, .ok template⟩).render := by
  simp +decide only [written, jsonLine, valueOf, Json.sorted, Json.sortedMembers, Json.insertSorted,
    if_true, if_false]

theorem summary_json (numbers : RunSummary) (milliseconds : Nat) :
    summary .json numbers milliseconds = line (Json.object
      [("duration_ms", .number milliseconds), ("errors", .number numbers.faults),
        ("files", .number numbers.templates), ("type", .string "summary")]).render := by
  simp +decide only [summary, jsonLine, Json.sorted, Json.sortedMembers, Json.insertSorted,
    if_false]

end Report

namespace Run

/-- Write the data of a template, if it has any and there is a directory for it. -/
def writeOutcome (outDir : Option Path) (system : FileSystem) (outcome : TemplateOutcome) :
    Except RunFailure FileSystem :=
  match outcome.result, outDir with
  | .ok template, some outDir => write system (target outDir outcome.name) template
  | _, _ => .ok system

/-- Write the data of templates, one after the other. -/
def writeAll (outDir : Option Path) (system : FileSystem) (outcomes : List TemplateOutcome) :
    Except RunFailure FileSystem :=
  outcomes.foldlM (writeOutcome outDir) system

variable {system after : FileSystem} {arguments : Arguments}

/-- As long as its data can be written, a template is reported on a line. -/
theorem report_json (json : arguments.output = some .json) {outcome : TemplateOutcome}
    (isWritten : writeOutcome arguments.outDir system outcome = .ok after)
    (reports diagnostics : String) :
    report arguments ⟨reports, diagnostics, system, none⟩ outcome =
      ⟨reports ++ Report.line (Report.valueOf arguments.outDir outcome).render, diagnostics, after,
        none⟩ := by
  have format : arguments.format = .json := by rw [Arguments.format, json]; rfl
  obtain ⟨name, result⟩ := outcome
  unfold writeOutcome at isWritten
  unfold report
  simp only [Option.isSome_none, Bool.false_eq_true, if_false, format]
  cases result with
  | error fault =>
      cases isWritten
      simp only [Report.faulty_json name fault arguments.outDir, Report.diagnostic,
        String.append_empty]
  | ok template =>
      cases outDir : arguments.outDir with
      | none =>
          rw [outDir] at isWritten
          cases isWritten
          simp only [Report.parsed_json]
          rfl
      | some directory =>
          rw [outDir] at isWritten
          simp only at isWritten
          simp only [isWritten, Report.written_json name directory template]

theorem foldl_report_json (json : arguments.output = some .json) {outcomes : List TemplateOutcome}
    (areWritten : writeAll arguments.outDir system outcomes = .ok after)
    (reports diagnostics : String) :
    outcomes.foldl (report arguments) ⟨reports, diagnostics, system, none⟩ =
      ⟨reports ++ Report.lines (outcomes.map (Report.valueOf arguments.outDir)), diagnostics, after,
        none⟩ := by
  induction outcomes generalizing system reports with
  | nil =>
      cases areWritten
      rw [List.foldl_nil, List.map_nil, Report.lines, List.map_nil, String.join_nil,
        String.append_empty]
  | cons outcome rest ih =>
      rw [writeAll, List.foldlM_cons] at areWritten
      cases isWritten : writeOutcome arguments.outDir system outcome with
      | error failure =>
          rw [isWritten] at areWritten
          cases areWritten
      | ok next =>
          rw [isWritten] at areWritten
          rw [List.foldl_cons, report_json json isWritten, ih areWritten, List.map_cons,
            Report.lines, Report.lines, List.map_cons, String.join_cons, String.append_assoc]

variable {settings : Settings} {input : ByteArray}

/-- A file has an outcome, whatever is in it. -/
theorem becomes_readTemplate (system : FileSystem) (settings : Settings) (input : ByteArray)
    (path : Path) : TemplateSource.Becomes system settings input (.file path)
      (readTemplate system settings path) := by
  unfold readTemplate
  cases isText : system.readText? path with
  | none => exact .unreadable isText
  | some text => exact .file isText

theorem becomes_readInput {outcome : TemplateOutcome} (isRead : readInput input = .ok outcome) :
    TemplateSource.Becomes system settings input .input outcome := by
  unfold readInput at isRead
  cases isText : String.fromUTF8? input with
  | none =>
      rw [isText] at isRead
      cases isRead
  | some text =>
      rw [isText] at isRead
      cases isRead
      exact .input isText

theorem exists_readInput (isText : (String.fromUTF8? input).isSome) :
    ∃ outcome, readInput input = .ok outcome := by
  obtain ⟨text, isText⟩ := Option.isSome_iff_exists.mp isText
  unfold readInput
  rw [isText]
  exact ⟨_, rfl⟩

/-- A run loads its settings, finds the templates, and reads them, the one from standard input last. -/
theorem outcomes_eq_bind (system : FileSystem) (workspace : Path) (arguments : Arguments)
    (input : ByteArray) : outcomes system workspace arguments input =
      (Settings.load system workspace arguments).bind fun settings =>
        (Discovery.templates system settings arguments).bind fun paths =>
          if arguments.readsInput then
            (readInput input).map fun outcome =>
              paths.map (readTemplate system settings) ++ [outcome]
          else .ok (paths.map (readTemplate system settings)) := by
  unfold outcomes
  cases Settings.load system workspace arguments with
  | error failure => rfl
  | ok settings =>
      cases found : Discovery.templates system settings arguments with
      | error failure => simp only [bind, Except.bind, found]
      | ok paths =>
          simp only [bind, Except.bind, found]
          cases readInput input <;> rfl

theorem outcomes_eq {paths : List Path}
    (loads : Settings.load system (workspace system arguments) arguments = .ok settings)
    (finds : Discovery.templates system settings arguments = .ok paths) :
    outcomes system (workspace system arguments) arguments input =
      if arguments.readsInput then
        (readInput input).map fun outcome => paths.map (readTemplate system settings) ++ [outcome]
      else .ok (paths.map (readTemplate system settings)) := by
  rw [outcomes_eq_bind, loads, Except.bind, finds, Except.bind]

/-- A run that has read its templates has found them. -/
theorem exists_of_outcomes {read : List TemplateOutcome}
    (areRead : outcomes system (workspace system arguments) arguments input = .ok read) :
    ∃ settings paths,
      Settings.load system (workspace system arguments) arguments = .ok settings ∧
      Discovery.templates system settings arguments = .ok paths := by
  rw [outcomes_eq_bind] at areRead
  cases loads : Settings.load system (workspace system arguments) arguments with
  | error failure =>
      rw [loads] at areRead
      cases areRead
  | ok settings =>
      cases finds : Discovery.templates system settings arguments with
      | error failure =>
          rw [loads, Except.bind, finds] at areRead
          cases areRead
      | ok paths => exact ⟨settings, paths, rfl, finds⟩

/-- Every source of a run has an outcome. -/
theorem exists_outcomes {paths : List Path}
    (loads : Settings.load system (workspace system arguments) arguments = .ok settings)
    (finds : Discovery.templates system settings arguments = .ok paths)
    (isText : arguments.readsInput = true → (String.fromUTF8? input).isSome) :
    ∃ read, outcomes system (workspace system arguments) arguments input = .ok read := by
  rw [outcomes_eq loads finds]
  cases readsInput : arguments.readsInput with
  | false => exact ⟨_, rfl⟩
  | true =>
      obtain ⟨outcome, isRead⟩ := exists_readInput (isText readsInput)
      rw [if_pos rfl, isRead]
      exact ⟨_, rfl⟩

/-- What has been read is what becomes of the sources, one after the other. -/
theorem becomes_outcomes {paths : List Path} {read : List TemplateOutcome}
    (loads : Settings.load system (workspace system arguments) arguments = .ok settings)
    (finds : Discovery.templates system settings arguments = .ok paths)
    (areRead : outcomes system (workspace system arguments) arguments input = .ok read) :
    List.Forall₂ (TemplateSource.Becomes system settings input)
      (TemplateSource.ofRun arguments paths) read := by
  have ofFiles : List.Forall₂ (TemplateSource.Becomes system settings input)
      (paths.map .file) (paths.map (readTemplate system settings)) := by
    rw [List.forall₂_map_left_iff, List.forall₂_map_right_iff, List.forall₂_same]
    exact fun path _ => becomes_readTemplate system settings input path
  rw [outcomes_eq loads finds] at areRead
  rw [TemplateSource.ofRun]
  cases readsInput : arguments.readsInput with
  | false =>
      rw [readsInput, if_neg Bool.false_ne_true] at areRead
      cases areRead
      rw [if_neg Bool.false_ne_true, List.append_nil]
      exact ofFiles
  | true =>
      rw [readsInput, if_pos rfl] at areRead
      cases isRead : readInput input with
      | error failure =>
          rw [isRead] at areRead
          cases areRead
      | ok outcome =>
          rw [isRead] at areRead
          cases areRead
          exact List.rel_append ofFiles (.cons (becomes_readInput isRead) .nil)

/-- The output of a run accounts for the templates that it has found: their paths, and what has become
of each of them. -/
structure IsStream (system : FileSystem) (settings : Settings) (arguments : Arguments)
    (input : ByteArray) (paths : List Path) (read : List TemplateOutcome) (outcome : RunOutcome) :
    Prop where
  listing : Discovery.IsListing system settings arguments paths
  becomes : List.Forall₂ (TemplateSource.Becomes system settings input)
    (TemplateSource.ofRun arguments paths) read
  /-- There is a line for each template, and one for the summary. -/
  lines : ∀ milliseconds, (outcome.output milliseconds).toList.splitOn '\n' =
    (read.map (Report.valueOf arguments.outDir) ++
      [Report.summaryValue (read.map (Report.valueOf arguments.outDir)) milliseconds]).map
        (·.render.toList) ++ [[]]
  kinds : (read.map (Report.valueOf arguments.outDir)).map Report.kind? =
    read.map fun outcome => some (if outcome.isFault then "error"
      else if arguments.outDir.isSome then "written" else "template")
  exitCode : outcome.ending.exitCode =
    if 0 < Report.errorCount (read.map (Report.valueOf arguments.outDir)) then 1 else 0
  /-- Files are written for the templates with data, and for no others. -/
  files : writeAll arguments.outDir system read = .ok outcome.system

theorem perform_json (json : arguments.output = some .json) {read : List TemplateOutcome}
    (areRead : outcomes system (workspace system arguments) arguments input = .ok read)
    (areWritten : writeAll arguments.outDir system read = .ok after) :
    perform system arguments input =
      ⟨.finished .json (count read), Report.lines (read.map (Report.valueOf arguments.outDir)), "",
        after⟩ := by
  have format : arguments.format = .json := by rw [Arguments.format, json]; rfl
  unfold perform reportAll
  rw [areRead]
  simp only [foldl_report_json json areWritten, format, String.empty_append]

theorem isStream_perform (json : arguments.output = some .json) {paths : List Path}
    {read : List TemplateOutcome} (listing : Discovery.IsListing system settings arguments paths)
    (becomes : List.Forall₂ (TemplateSource.Becomes system settings input)
      (TemplateSource.ofRun arguments paths) read)
    (areRead : outcomes system (workspace system arguments) arguments input = .ok read)
    (areWritten : writeAll arguments.outDir system read = .ok after) :
    IsStream system settings arguments input paths read (perform system arguments input) := by
  rw [perform_json json areRead areWritten]
  refine ⟨listing, becomes, fun milliseconds => ?_, ?_, ?_, areWritten⟩
  · have whole : RunOutcome.output
        ⟨.finished .json (count read), Report.lines (read.map (Report.valueOf arguments.outDir)), "",
          after⟩ milliseconds =
        Report.lines (read.map (Report.valueOf arguments.outDir) ++
          [Report.summaryValue (read.map (Report.valueOf arguments.outDir)) milliseconds]) := by
      rw [Report.lines_append_singleton, Report.summaryValue, Report.errorCount_valueOf,
        List.length_map]
      exact congrArg (_ ++ ·) (Report.summary_json (count read) milliseconds)
    rw [whole, Report.splitOn_lines]
  · rw [List.map_map]
    exact List.map_congr_left fun outcome _ => Report.kind?_valueOf arguments.outDir outcome
  · show (if read.countP (·.isFault) = 0 then 0 else 1) = _
    rw [Report.errorCount_valueOf]
    by_cases isNone : read.countP (·.isFault) = 0
    · rw [if_pos isNone, if_neg (Nat.not_lt.mpr (Nat.le_of_eq isNone))]
    · rw [if_neg isNone, if_pos (Nat.pos_of_ne_zero isNone)]

/-- A template, one with a fault, and one that is no text. -/
def siteSystem : FileSystem :=
  ⟨.directory [("w", .directory [("site", .directory [("a.tmph.html", .file "<p>x</p>".toUTF8),
    ("b.tmph.html", .file "</p>".toUTF8), ("c.tmph.html", .file ⟨#[0xFF]⟩)])])], ["w"]⟩

/-- The templates of a directory and the one from standard input are written to files. -/
def siteLine : List String := ["--output=json", "--out-dir", "out", "-", "site"]

def siteArguments : Arguments :=
  { Arguments.blank with
    paths := [⟨"-"⟩, ⟨"site"⟩]
    output := some .json
    outDir := some ⟨"out"⟩ }

def siteSettings : Settings :=
  (Settings.load siteSystem (workspace siteSystem siteArguments) siteArguments).toOption.getD
    ⟨⟨""⟩, [], []⟩

end Run

end TemplateMarkup
