import TemplateMarkup.Command.Run

/-!
# The program

The outer layer.  It shows a run the files that the command line is about, and carries out what the run
has decided: standard output, standard error, files, and the exit code.
-/

namespace TemplateMarkup

namespace Program

/-- A place on the disk, as an entry of the outermost directory. -/
def entryAt (place : List String) : IO.FS.DirEntry := ⟨"/", String.intercalate "/" place⟩

def kindOf (entry : IO.FS.DirEntry) : IO (Option IO.FS.FileType) := do
  try
    return some (← entry.path.metadata).type
  catch _ =>
    return none

/-- A file.  If it cannot be read, its content is no text either. -/
def loadFile (entry : IO.FS.DirEntry) : IO FileTree := do
  try
    return .file (← IO.FS.readBinFile entry.path)
  catch _ =>
    return .file ⟨#[0xFF]⟩

/-- A directory with everything in it.  Only templates are read, and a directory inside itself is left
empty. -/
partial def loadDirectory (settings : Settings) (around : List String) (entry : IO.FS.DirEntry) :
    IO FileTree := do
  let name := toString (← IO.FS.realPath entry.path)
  if around.contains name then
    return .empty
  let inner ← try entry.path.readDir catch _ => pure #[]
  let loaded ← inner.toList.filterMapM fun entry => do
    match ← kindOf entry with
    | some .dir => return some (entry.fileName, ← loadDirectory settings (name :: around) entry)
    | some .file =>
        let isRead := settings.isTemplate ⟨entry.fileName⟩
        return some (entry.fileName, ← if isRead then loadFile entry else pure (.file .empty))
    | _ => return none
  return .directory loaded

/-- The place that a path leads to, whether or not anything is there. -/
def destination (system : FileSystem) (path : Path) : List String :=
  (system.route path).getLastD []

/-- Show a system what a path leads through.  Directories are shown without their entries. -/
def reveal (system : FileSystem) (path : Path) : IO FileSystem :=
  (system.route path).foldlM
    (fun system place => do
      match ← kindOf (entryAt place) with
      | some .dir => return if system.isDirectoryAt place then system else system.put .empty place
      | some .file => return system.put (← loadFile (entryAt place)) place
      | _ => return system)
    system

/-- Show a system everything below the directory that a path leads to. -/
def revealBelow (settings : Settings) (system : FileSystem) (path : Path) : IO FileSystem := do
  let place := destination system path
  if system.isDirectoryAt place then
    return system.put (← loadDirectory settings [] (entryAt place)) place
  else
    return system

/-- Show a system what a run reads: the settings file, and what is at the paths to search. -/
def revealSources (system : FileSystem) (arguments : Arguments) : IO FileSystem := do
  let workspace := Run.workspace system arguments
  let candidates := arguments.config.elim (SettingsFile.candidates workspace) ([·])
  let system ← candidates.foldlM reveal system
  match Settings.load system workspace arguments with
  | .error _ => return system
  | .ok settings =>
      let roots := Discovery.roots settings arguments
      let depth (root : Path) : Nat := (destination system root).length
      let shallowFirst := roots.mergeSort fun first second => depth first ≤ depth second
      let system ← roots.foldlM reveal system
      let system ← shallowFirst.foldlM (revealBelow settings) system
      (candidates ++ roots).foldlM reveal system

def blankSystem : IO FileSystem := do
  let names := ((toString (← IO.currentDir)).splitOn "/").filter (!·.isEmpty)
  return ⟨FileTree.put .empty names .empty, names⟩

/-- The rest of a stream. -/
partial def readRest (stream : IO.FS.Stream) (content : ByteArray) : IO ByteArray := do
  let piece ← stream.read 65536
  if piece.isEmpty then return content else readRest stream (content ++ piece)

/-- Write the files that a run has made or changed. -/
def writeChanges (before after : FileSystem) : IO Unit := do
  for (place, content) in after.root.changes [] (some before.root) do
    IO.FS.createDirAll (entryAt place.dropLast).path
    IO.FS.writeBinFile (entryAt place).path content

def carryOut (started : Nat) (before : FileSystem) (outcome : RunOutcome) : IO UInt32 := do
  IO.eprint outcome.diagnostics
  writeChanges before outcome.system
  IO.print outcome.reports
  IO.print (outcome.closing ((← IO.monoMsNow) - started))
  IO.eprint outcome.complaint
  return UInt32.ofNat outcome.ending.exitCode

/-- Run again whenever what the run reads has changed. -/
partial def watch (system : FileSystem) (arguments : Arguments) (input : ByteArray)
    (seen : FileSystem) : IO UInt32 := do
  IO.sleep 500
  let current ← revealSources system arguments
  unless (current.root.changes [] (some seen.root)).isEmpty do
    discard (carryOut (← IO.monoMsNow) current (Run.perform current arguments input))
  watch system arguments input current

end Program

end TemplateMarkup

open TemplateMarkup

def main (written : List String) : IO UInt32 := do
  let started ← IO.monoMsNow
  let system ← Program.blankSystem
  match Arguments.read written with
  | .run arguments =>
      let input ←
        if arguments.readsInput then Program.readRest (← IO.getStdin) .empty else pure .empty
      let shown ← Program.revealSources system arguments
      let exitCode ← Program.carryOut started shown (Run.perform shown arguments input)
      if arguments.watch then Program.watch system arguments input shown else return exitCode
  | _ => Program.carryOut started system (Run.command system written .empty)
