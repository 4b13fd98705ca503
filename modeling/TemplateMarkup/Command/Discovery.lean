import TemplateMarkup.Command.Settings

/-!
# Discovery of templates

The template files of a run: the files named on the command line, and the files with the name of a
template below the directories that are searched.  What matches a pattern is passed over with
everything below it, except for files that are named.
-/

namespace TemplateMarkup

namespace Discovery

mutual

/-- The templates of a tree that stands at a path. -/
def templatesIn (settings : Settings) (path : Path) : FileTree → List Path
  | .file _ =>
      if settings.isTemplate path && !settings.isIgnored path then [path] else []
  | .directory entries =>
      if settings.isIgnored path then [] else templatesInEntries settings path entries

/-- The templates of some entries of the directory at a path. -/
def templatesInEntries (settings : Settings) (path : Path) :
    List (String × FileTree) → List Path
  | [] => []
  | (name, tree) :: rest =>
      templatesIn settings (path.join ⟨name⟩) tree ++ templatesInEntries settings path rest

end

/-- The paths that are searched: those named, or the workspace if nothing at all is named. -/
def roots (settings : Settings) (arguments : Arguments) : List Path :=
  let named := arguments.searchPaths.map settings.workspace.join
  if named.isEmpty && !arguments.readsInput then [settings.workspace] else named

def templatesOf (system : FileSystem) (settings : Settings) (root : Path) :
    Except RunFailure (List Path) :=
  match system.find? root with
  | none => .error (.missingPath root)
  | some (.file _) => .ok [root]
  | some (.directory entries) => .ok (templatesIn settings root (.directory entries))

/-- Leave out each path that has the same components as the one before it. -/
def dropRepeats : List Path → List Path
  | [] => []
  | path :: rest =>
      match dropRepeats rest with
      | [] => [path]
      | next :: later => if path.isSame next then path :: later else path :: next :: later

/-- All templates of a run, in order and without repeats. -/
def templates (system : FileSystem) (settings : Settings) (arguments : Arguments) :
    Except RunFailure (List Path) := do
  let found ← (roots settings arguments).mapM (templatesOf system settings)
  return dropRepeats (found.flatten.mergeSort fun first second => (compare first second).isLE)

end Discovery

end TemplateMarkup
