import TemplateMarkup.Assembly.Basic
import TemplateMarkup.Command.Arguments
import TemplateMarkup.Document.Encode
import TemplateMarkup.Json.Writer

/-!
# Reports

What is written about the templates of a run, in each of the three formats.  Every report ends with the
end of a line.  In the formats for people, faults are not part of standard output: they are diagnostics.
-/

namespace TemplateMarkup

/-- Why a template has no data. -/
inductive TemplateFault where
  /-- The file is not UTF-8 text. -/
  | unreadable (path : Path)
  | structural (error : ParseError)
  deriving DecidableEq, Repr

namespace TemplateFault

/-- A stable short name for the kind of fault. -/
def code : TemplateFault → String
  | unreadable _ => "read-failed"
  | structural error => error.fault.code

def message : TemplateFault → String
  | unreadable path => "failed to read " ++ path.text
  | structural error => error.fault.message

def position? : TemplateFault → Option Position
  | unreadable _ => none
  | structural error => some error.position

end TemplateFault

/-- What has become of a template. -/
structure TemplateOutcome where
  name : String
  result : Except TemplateFault Template

namespace TemplateOutcome

def isFault (outcome : TemplateOutcome) : Bool :=
  match outcome.result with
  | .ok _ => false
  | .error _ => true

end TemplateOutcome

/-- The numbers of a run. -/
structure RunSummary where
  templates : Nat
  faults : Nat
  deriving DecidableEq, Repr

namespace Report

def successMark : String := "\x1b[32m✓\x1b[0m "

def failureMark : String := "\x1b[31m✗\x1b[0m "

/-- A number with a noun in the singular or the plural. -/
def counted (count : Nat) (noun : String) : String :=
  toString count ++ " " ++ noun ++ (if count == 1 then "" else "s")

def line (text : String) : String := text ++ "\n"

/-- A JSON object on a line, with its members in the order of their names. -/
def jsonLine (members : List (String × Json)) : String :=
  line (Json.object members).sorted.render

def document (template : Template) : String := template.encode.renderPretty

def parsed (format : OutputFormat) (name : String) (template : Template) : String :=
  match format with
  | .human =>
      line (successMark ++ name ++ ": " ++ counted template.nodeCount "node" ++ ", " ++
        counted template.inlineComponents.size "inline component" ++ ", " ++
        counted template.assetCount "asset" ++ ", " ++
        counted template.imports.length "import")
  | .json =>
      jsonLine
        [("type", .string "template"), ("file", .string name), ("data", template.encode)]
  | .pretty => line (document template)

/-- A template whose data has been written to a file. -/
def written (format : OutputFormat) (name : String) (target : Path) : String :=
  match format with
  | .human | .pretty => line (successMark ++ name ++ " -> " ++ target.text)
  | .json =>
      jsonLine
        [("type", .string "written"), ("file", .string name), ("output", .string target.text)]

def optionalNumber : Option Nat → Json
  | none => .null
  | some value => .number value

def faulty (format : OutputFormat) (name : String) (fault : TemplateFault) : String :=
  match format with
  | .human | .pretty => ""
  | .json =>
      jsonLine
        [("type", .string "error"), ("file", .string name), ("code", .string fault.code),
          ("message", .string fault.message),
          ("line", optionalNumber (fault.position?.map (·.line))),
          ("column", optionalNumber (fault.position?.map (·.column)))]

/-- What is said of a template without data where people look for what went wrong. -/
def diagnostic (format : OutputFormat) (name : String) (fault : TemplateFault) : String :=
  match format with
  | .human | .pretty =>
      match fault.position? with
      | some position => line (name ++ ":" ++ position.render ++ ": " ++ fault.message)
      | none => line (name ++ ": " ++ fault.message)
  | .json => ""

/-- The end of a run that took some time. -/
def summary (format : OutputFormat) (numbers : RunSummary) (milliseconds : Nat) : String :=
  match format with
  | .human =>
      line "" ++
        (if numbers.faults == 0 then
          line (successMark ++ "Parsed " ++ counted numbers.templates "file" ++ " (" ++
            toString milliseconds ++ "ms)")
        else
          line (failureMark ++ "Found " ++ counted numbers.faults "error" ++ " in " ++
            counted numbers.templates "file") ++
          line ("Time: " ++ toString milliseconds ++ "ms"))
  | .json =>
      jsonLine
        [("type", .string "summary"), ("files", .number numbers.templates),
          ("errors", .number numbers.faults), ("duration_ms", .number milliseconds)]
  | .pretty => ""

end Report

end TemplateMarkup
