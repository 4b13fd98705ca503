import TemplateMarkup.Command.Discovery
import TemplateMarkup.Command.Report

/-!
# Runs of the command

A run finds templates, reads each of them, and reports what has become of it, on standard output or as
a file of its own.  A template that cannot be read does not keep the others from being read.
-/

namespace TemplateMarkup

/-- How a run comes to its end. -/
inductive RunEnding where
  /-- Everything has been reported. -/
  | finished (format : OutputFormat) (numbers : RunSummary)
  /-- The run has stopped at a failure. -/
  | failed (failure : RunFailure)
  /-- The command line asked for a text only. -/
  | informed
  /-- The command line does not follow the grammar. -/
  | misused
  deriving DecidableEq, Repr

namespace RunEnding

/-- Zero for success, one for templates without data and for failures, two for misuse. -/
def exitCode : RunEnding → Nat
  | finished _ numbers => if numbers.faults = 0 then 0 else 1
  | failed _ => 1
  | informed => 0
  | misused => 2

end RunEnding

/-- What is left after a run. -/
structure RunOutcome where
  ending : RunEnding
  /-- What has been written to standard output, up to the summary. -/
  reports : String
  /-- What has been written to standard error, up to a failure. -/
  diagnostics : String
  system : FileSystem

namespace RunOutcome

/-- The summary at the end of standard output, which tells how long the run took. -/
def closing (outcome : RunOutcome) (milliseconds : Nat) : String :=
  match outcome.ending with
  | .finished format numbers => Report.summary format numbers milliseconds
  | _ => ""

def output (outcome : RunOutcome) (milliseconds : Nat) : String :=
  outcome.reports ++ outcome.closing milliseconds

def complaint (outcome : RunOutcome) : String :=
  match outcome.ending with
  | .failed failure => Report.line failure.message
  | .misused => Report.line "For more information, try '--help'."
  | _ => ""

end RunOutcome

namespace Run

def versionText : String := "tempeh 0.1.0"

def helpText : String :=
  "Usage: tempeh [OPTIONS] [PATHS]...\n\n" ++
    "  -w, --workspace <DIR>   Workspace directory\n" ++
    "  -c, --config <FILE>     Path to tempeh.json\n" ++
    "      --output <FORMAT>   human, json or pretty\n" ++
    "      --out-dir <DIR>     Write one JSON file per template into this directory\n" ++
    "      --ignore <GLOB>     Ignore pattern\n" ++
    "      --watch             Re-parse templates when they change\n" ++
    "      --timings           Show timing information\n" ++
    "  -v, --verbose           Verbose output\n" ++
    "  -h, --help              Print help\n" ++
    "  -V, --version           Print version"

def inputName : String := "<stdin>"

def readTemplate (system : FileSystem) (settings : Settings) (path : Path) : TemplateOutcome :=
  let name := (settings.inWorkspace path).text
  let result :=
    match system.readText? path with
    | none => .error (.unreadable path)
    | some source => (Template.parse source .start (some name)).mapError .structural
  ⟨name, result⟩

/-- Read a template from standard input.  It has no path. -/
def readInput (input : ByteArray) : Except RunFailure TemplateOutcome :=
  match String.fromUTF8? input with
  | none => .error .unreadableInput
  | some source => .ok ⟨inputName, (Template.parse source .start none).mapError .structural⟩

/-- Read all templates of a run, the one from standard input last. -/
def outcomes (system : FileSystem) (workspace : Path) (arguments : Arguments)
    (input : ByteArray) : Except RunFailure (List TemplateOutcome) := do
  let settings ← Settings.load system workspace arguments
  let paths ← Discovery.templates system settings arguments
  let files := paths.map (readTemplate system settings)
  if arguments.readsInput then
    return files ++ [← readInput input]
  else
    return files

/-- The file that the data of a template is written to. -/
def target (outDir : Path) (name : String) : Path :=
  let fileName := if name == inputName then "stdin" else name
  outDir.join ⟨String.ofList (fileName.toList.dropWhile (· == '/')) ++ ".json"⟩

/-- Make the directories around a file that are not there. -/
def prepare (system : FileSystem) (target : Path) : Except RunFailure FileSystem :=
  match target.parent? with
  | none => .ok system
  | some directory =>
      match system.makeDirectories? directory with
      | some prepared => .ok prepared
      | none => .error (.uncreatedDirectory directory)

/-- Write the data of a template to its file. -/
def write (system : FileSystem) (target : Path) (template : Template) :
    Except RunFailure FileSystem := do
  let prepared ← prepare system target
  match prepared.write? target (Report.document template).toUTF8 with
  | some system => .ok system
  | none => .error (.unwrittenFile target)

/-- What has been reported so far. -/
structure Reported where
  reports : String
  diagnostics : String
  system : FileSystem
  /-- The failure at which reporting has stopped. -/
  failure? : Option RunFailure

def report (arguments : Arguments) (reported : Reported) (outcome : TemplateOutcome) : Reported :=
  if reported.failure?.isSome then reported
  else
    let format := arguments.format
    let name := outcome.name
    match outcome.result, arguments.outDir with
    | .error fault, _ =>
        { reported with
          reports := reported.reports ++ Report.faulty format name fault
          diagnostics := reported.diagnostics ++ Report.diagnostic format name fault }
    | .ok template, none =>
        { reported with reports := reported.reports ++ Report.parsed format name template }
    | .ok template, some outDir =>
        match write reported.system (target outDir name) template with
        | .error failure => { reported with failure? := some failure }
        | .ok system =>
            { reported with
              reports := reported.reports ++ Report.written format name (target outDir name)
              system }

def reportAll (arguments : Arguments) (system : FileSystem) (outcomes : List TemplateOutcome) :
    Reported :=
  outcomes.foldl (report arguments) ⟨"", "", system, none⟩

def count (outcomes : List TemplateOutcome) : RunSummary :=
  ⟨outcomes.length, outcomes.countP (·.isFault)⟩

def currentDirectory (system : FileSystem) : Path :=
  ⟨"/" ++ String.intercalate "/" system.here⟩

def workspace (system : FileSystem) (arguments : Arguments) : Path :=
  arguments.workspace.getD (currentDirectory system)

def perform (system : FileSystem) (arguments : Arguments) (input : ByteArray) : RunOutcome :=
  match outcomes system (workspace system arguments) arguments input with
  | .error failure => ⟨.failed failure, "", "", system⟩
  | .ok outcomes =>
      let reported := reportAll arguments system outcomes
      let ending :=
        match reported.failure? with
        | some failure => .failed failure
        | none => .finished arguments.format (count outcomes)
      ⟨ending, reported.reports, reported.diagnostics, reported.system⟩

def command (system : FileSystem) (written : List String) (input : ByteArray) : RunOutcome :=
  match Arguments.read written with
  | .misuse => ⟨.misused, "", "", system⟩
  | .showVersion => ⟨.informed, Report.line versionText, "", system⟩
  | .showHelp => ⟨.informed, Report.line helpText, "", system⟩
  | .run arguments => perform system arguments input

end Run

end TemplateMarkup
