import TemplateMarkup.Command.Arguments
import TemplateMarkup.Files.Tree
import TemplateMarkup.Glob.Reader
import TemplateMarkup.Json.Decode

/-!
# Settings

What a run looks for: the directory it works in, the endings of template names, and the patterns of
what it passes over.  Endings and further patterns come from a settings file, which is named on the
command line or found in the workspace or in a directory around it.

A run stops at settings that cannot be used, at paths that lead nowhere, and at what it cannot read or
write.  Each failure names what could not be used, and says so in one line.  A template that cannot
be read is no failure of the run: it is reported with the others.
-/

namespace TemplateMarkup

/-- Why a run stops. -/
inductive RunFailure where
  /-- The settings file is not there, or is not UTF-8 text. -/
  | unreadableSettings (path : Path)
  /-- The settings file is not a JSON document of the right shape. -/
  | malformedSettings (path : Path)
  /-- A pattern does not follow the grammar of patterns. -/
  | invalidPattern (pattern : String)
  /-- A path to search leads nowhere. -/
  | missingPath (path : Path)
  /-- Standard input is not UTF-8 text. -/
  | unreadableInput
  | uncreatedDirectory (path : Path)
  | unwrittenFile (path : Path)
  deriving DecidableEq, Repr

namespace RunFailure

def message : RunFailure → String
  | unreadableSettings path => "Failed to read " ++ path.text
  | malformedSettings path => "Failed to parse " ++ path.text
  | invalidPattern pattern => "Invalid ignore pattern \"" ++ pattern ++ "\""
  | missingPath path => "No such file or directory: " ++ path.text
  | unreadableInput => "Failed to read stdin"
  | uncreatedDirectory path => "Failed to create " ++ path.text
  | unwrittenFile path => "Failed to write " ++ path.text

end RunFailure

/-- The content of a settings file. -/
structure SettingsFile where
  extensions : List String
  ignore : List String
  deriving DecidableEq, Repr

namespace SettingsFile

/-- The name under which a settings file is looked for. -/
def name : String := "tempeh.json"

def empty : SettingsFile := ⟨[], []⟩

def decode : Decoder SettingsFile :=
  Decoder.record ["extensions", "ignore"] fun depth fields =>
    SettingsFile.mk <$> fields.field "extensions" (some []) (Decoder.list Decoder.string depth) <*>
      fields.field "ignore" (some []) (Decoder.list Decoder.string depth)

/-- Where a settings file is looked for, innermost place first. -/
def candidates (workspace : Path) : List Path :=
  workspace.ancestors.map fun directory => directory.join ⟨name⟩

/-- The path of the settings file of a run, if there is one. -/
def locate? (system : FileSystem) (workspace : Path) (arguments : Arguments) : Option Path :=
  match arguments.config with
  | some path => some path
  | none => (candidates workspace).find? system.isFile

def readAt (system : FileSystem) (path : Path) : Except RunFailure SettingsFile :=
  match system.readText? path with
  | none => .error (.unreadableSettings path)
  | some text => (Decoder.run decode text).mapError fun _ => .malformedSettings path

def load (system : FileSystem) (workspace : Path) (arguments : Arguments) :
    Except RunFailure SettingsFile :=
  match locate? system workspace arguments with
  | none => .ok empty
  | some path => readAt system path

end SettingsFile

/-- What a run looks for. -/
structure Settings where
  workspace : Path
  /-- The endings of the names of templates. -/
  extensions : List String
  /-- The patterns of what is passed over. -/
  ignore : List Glob
  deriving Repr

namespace Settings

/-- The ending of template names if no other is set. -/
def defaultExtension : String := ".tmph.html"

/-- The patterns that always apply. -/
def defaultIgnore : List String := ["**/node_modules/**", "**/dist/**", "**/.git/**"]

def readPattern (pattern : String) : Except RunFailure Glob :=
  match Glob.read? pattern with
  | some glob => .ok glob
  | none => .error (.invalidPattern pattern)

def load (system : FileSystem) (workspace : Path) (arguments : Arguments) :
    Except RunFailure Settings := do
  let file ← SettingsFile.load system workspace arguments
  let extensions := if file.extensions.isEmpty then [defaultExtension] else file.extensions
  let ignore ← (defaultIgnore ++ file.ignore ++ arguments.ignore).mapM readPattern
  return ⟨workspace, extensions, ignore⟩

/-- The name of a template file ends in one of the endings. -/
def isTemplate (settings : Settings) (path : Path) : Bool :=
  path.fileName?.any fun name =>
    settings.extensions.any fun extension => extension.toList.isSuffixOf name.toList

/-- The path as it is named in the workspace. -/
def inWorkspace (settings : Settings) (path : Path) : Path :=
  (path.relativeTo? settings.workspace).getD path

/-- A pattern matches the path, as it is named in the workspace or as a whole. -/
def isIgnored (settings : Settings) (path : Path) : Bool :=
  settings.ignore.any fun glob =>
    glob.isMatch (settings.inWorkspace path).text || glob.isMatch path.text

end Settings

end TemplateMarkup
