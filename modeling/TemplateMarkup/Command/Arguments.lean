import TemplateMarkup.Files.Path

/-!
# Command-line arguments

The grammar of the command line.  Options have long and short names, a value is attached to its option
or follows it, short flags may be joined, and after two hyphens everything is a path.  An option or a
flag that makes sense once may be given once.
-/

namespace TemplateMarkup

/-- How results are reported. -/
inductive OutputFormat where
  /-- A line for each template, for people. -/
  | human
  /-- A JSON object on a line for each template. -/
  | json
  /-- A JSON document for each template. -/
  | pretty
  deriving DecidableEq, Repr

/-- What a command line asks for. -/
structure Arguments where
  paths : List Path
  workspace : Option Path
  config : Option Path
  output : Option OutputFormat
  outDir : Option Path
  ignore : List String
  watch : Bool
  timings : Bool
  verbose : Bool
  deriving Repr

/-- What is to be done about a command line. -/
inductive Invocation where
  | run (arguments : Arguments)
  | showVersion
  | showHelp
  /-- The command line does not follow the grammar. -/
  | misuse
  deriving Repr

namespace Arguments

def blank : Arguments := ⟨[], none, none, none, none, [], false, false, false⟩

def format (arguments : Arguments) : OutputFormat := arguments.output.getD .human

def standardInput : Path := ⟨"-"⟩

/-- A template is to be read from standard input. -/
def readsInput (arguments : Arguments) : Bool := arguments.paths.any standardInput.isSame

def searchPaths (arguments : Arguments) : List Path :=
  arguments.paths.filter (!standardInput.isSame ·)

/-- Options that have a value. -/
inductive ValueOption where
  | workspace
  | config
  | output
  | outDir
  | ignore
  deriving DecidableEq, Repr

/-- Options that have none. -/
inductive Switch where
  | watch
  | timings
  | verbose
  | version
  | help
  deriving DecidableEq, Repr

/-- An option of either kind. -/
inductive AnyOption where
  | value (option : ValueOption)
  | switch (switch : Switch)
  deriving DecidableEq, Repr

def long? (name : String) : Option AnyOption :=
  match name with
  | "workspace" => some (.value .workspace)
  | "config" => some (.value .config)
  | "output" => some (.value .output)
  | "out-dir" => some (.value .outDir)
  | "ignore" => some (.value .ignore)
  | "watch" => some (.switch .watch)
  | "timings" => some (.switch .timings)
  | "verbose" => some (.switch .verbose)
  | "version" => some (.switch .version)
  | "help" => some (.switch .help)
  | _ => none

def short? (name : Char) : Option AnyOption :=
  match name with
  | 'w' => some (.value .workspace)
  | 'c' => some (.value .config)
  | 'v' => some (.switch .verbose)
  | 'V' => some (.switch .version)
  | 'h' => some (.switch .help)
  | _ => none

def format? (name : String) : Option OutputFormat :=
  match name with
  | "human" => some .human
  | "json" => some .json
  | "pretty" => some .pretty
  | _ => none

/-- A path that is given once and is not empty. -/
def pathOnce? (given : Option Path) (value : String) : Option (Option Path) :=
  if given.isSome || value.isEmpty then none else some (some ⟨value⟩)

def set? (arguments : Arguments) (option : ValueOption) (value : String) : Option Arguments :=
  match option with
  | .workspace =>
      (pathOnce? arguments.workspace value).map fun path => { arguments with workspace := path }
  | .config =>
      (pathOnce? arguments.config value).map fun path => { arguments with config := path }
  | .outDir =>
      (pathOnce? arguments.outDir value).map fun path => { arguments with outDir := path }
  | .output =>
      if arguments.output.isSome then none
      else (format? value).map fun format => { arguments with output := some format }
  | .ignore => some { arguments with ignore := arguments.ignore ++ [value] }

def addPath? (arguments : Arguments) (value : String) : Option Arguments :=
  if value.isEmpty then none
  else some { arguments with paths := arguments.paths ++ [⟨value⟩] }

/-- What remains to be done after a switch. -/
inductive Progress where
  | next (arguments : Arguments)
  /-- The next argument is the value of an option. -/
  | awaiting (option : ValueOption) (arguments : Arguments)
  | decided (invocation : Invocation)
  deriving Repr

/-- Go on with arguments, unless the command line has been misused. -/
def Progress.ofOption : Option Arguments → Progress
  | some arguments => .next arguments
  | none => .decided .misuse

/-- Take a switch.  Asking for the version or for help decides what is done. -/
def takeSwitch (arguments : Arguments) : Switch → Progress
  | .watch => if arguments.watch then .decided .misuse else .next { arguments with watch := true }
  | .timings =>
      if arguments.timings then .decided .misuse else .next { arguments with timings := true }
  | .verbose =>
      if arguments.verbose then .decided .misuse else .next { arguments with verbose := true }
  | .version => .decided .showVersion
  | .help => .decided .showHelp

/-- Take an argument that starts with two hyphens: a name, and perhaps an attached value. -/
def takeLong (arguments : Arguments) (written : List Char) : Progress :=
  let name := String.ofList (written.takeWhile (· != '='))
  match long? name, written.dropWhile (· != '=') with
  | some (.value option), _ :: value =>
      .ofOption (arguments.set? option (String.ofList value))
  | some (.value option), [] => .awaiting option arguments
  | some (.switch switch), [] => arguments.takeSwitch switch
  | some (.switch _), _ :: _ => .decided .misuse
  | none, _ => .decided .misuse

/-- Take joined short names.  What follows the name of an option with a value is its value, with or
without an equals sign. -/
def takeShorts (arguments : Arguments) : List Char → Progress
  | [] => .next arguments
  | name :: rest =>
      match short? name with
      | none => .decided .misuse
      | some (.switch switch) =>
          match arguments.takeSwitch switch with
          | .next arguments => takeShorts arguments rest
          | other => other
      | some (.value option) =>
          match rest with
          | [] => .awaiting option arguments
          | '=' :: value => .ofOption (arguments.set? option (String.ofList value))
          | value => .ofOption (arguments.set? option (String.ofList value))

def take (arguments : Arguments) (written : String) : Progress :=
  match written.toList with
  | '-' :: '-' :: name => arguments.takeLong name
  | '-' :: first :: rest => arguments.takeShorts (first :: rest)
  | _ => .ofOption (arguments.addPath? written)

/-- An argument that is an option and so cannot be a value.  A single hyphen is none. -/
def isOption (written : String) : Bool :=
  match written.toList with
  | '-' :: _ :: _ => true
  | _ => false

def readPaths (arguments : Arguments) : List String → Invocation
  | [] => .run arguments
  | written :: rest =>
      match arguments.addPath? written with
      | some arguments => readPaths arguments rest
      | none => .misuse

/-- Read arguments one after the other, the first of them perhaps as the value of an option. -/
def readAll (awaiting : Option ValueOption) (arguments : Arguments) : List String → Invocation
  | [] => if awaiting.isSome then .misuse else .run arguments
  | written :: rest =>
      match awaiting with
      | some option =>
          if isOption written then .misuse
          else
            match arguments.set? option written with
            | some arguments => readAll none arguments rest
            | none => .misuse
      | none =>
          if written == "--" then readPaths arguments rest
          else
            match arguments.take written with
            | .next arguments => readAll none arguments rest
            | .awaiting option arguments => readAll (some option) arguments rest
            | .decided invocation => invocation

def read (written : List String) : Invocation := readAll none blank written

end Arguments

end TemplateMarkup
