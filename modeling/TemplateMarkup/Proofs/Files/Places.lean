import TemplateMarkup.Proofs.Files.Contents
import TemplateMarkup.Proofs.Files.Steps

/-!
# Places that paths name

A path names a place, whether or not anything is there: names lead into directories, two dots lead out
of them, and everything else means nothing.  A path that leads somewhere leads to the place it names.
Steps that never lead out of where they start lead to the same place below any directory.  A file that
is written changes the content at the place that its path names, and at no other.
-/

namespace TemplateMarkup

namespace PathComponent

/-- Steps from a directory some levels deep never lead out of the outermost one. -/
def stayWithin : Nat → List PathComponent → Bool
  | _, [] => true
  | _, .root :: _ => false
  | depth, .here :: rest => stayWithin depth rest
  | 0, .up :: _ => false
  | depth + 1, .up :: rest => stayWithin depth rest
  | depth, .name _ :: rest => stayWithin (depth + 1) rest

theorem stayWithin_of_append {depth : Nat} {first second : List PathComponent}
    (stay : stayWithin depth (first ++ second) = true) : stayWithin depth first = true := by
  induction first generalizing depth with
  | nil => rw [stayWithin]
  | cons component rest ih =>
      rw [List.cons_append] at stay
      cases component with
      | root => exact stay
      | here => exact ih stay
      | up =>
          cases depth with
          | zero => exact stay
          | succ depth => exact ih stay
      | name text => exact ih stay

end PathComponent

namespace FileSystem

/-- The place that a component leads to from a place. -/
def enter (place : List String) : PathComponent → List String
  | .root => []
  | .here => place
  | .up => place.dropLast
  | .name text => place ++ [text]

/-- The place that a path names, whether or not anything is there. -/
def resolve (system : FileSystem) (path : Path) : List String :=
  path.segments.foldl next (system.start path)

theorem foldl_next (segments : List String) (place : List String) :
    segments.foldl next place = (segments.filterMap Path.component?).foldl enter place := by
  induction segments generalizing place with
  | nil => rfl
  | cons segment rest ih =>
      rw [List.foldl_cons, ih, next, List.filterMap_cons, Path.component?]
      cases Path.isTrivial segment with
      | true => rfl
      | false =>
          rw [if_neg Bool.false_ne_true, if_neg Bool.false_ne_true]
          cases segment == ".." <;> rfl

variable {system after : FileSystem}

theorem resolve_eq_steps (path : Path) :
    system.resolve path = path.steps.foldl enter (system.start path) :=
  foldl_next path.segments (system.start path)

theorem resolve_eq_components (path : Path) :
    system.resolve path = path.components.foldl enter system.here := by
  rw [resolve_eq_steps, Path.components_eq_steps, Path.leading?, start]
  split
  · rfl
  · split <;> rfl

/-- A joined path goes on where the one path leads. -/
theorem resolve_join {path other : Path} (relative : other.isAbsolute = false) :
    system.resolve (path.join other) = other.steps.foldl enter (system.resolve path) := by
  rw [resolve_eq_steps, resolve_eq_steps, Path.steps_join relative, List.foldl_append, start, start,
    Path.isAbsolute_join relative]

theorem eq_next_of_follow? {place entered : List String} {segment : String}
    (followed : system.follow? place segment = some entered) : entered = next place segment := by
  unfold follow? at followed
  split at followed
  · exact (Option.some.inj followed).symm
  · cases followed

theorem eq_foldl_of_follow? {segments : List String} {place entered : List String}
    (followed : segments.foldlM system.follow? place = some entered) :
    entered = segments.foldl next place := by
  induction segments generalizing place with
  | nil => exact (Option.some.inj followed).symm
  | cons segment rest ih =>
      rw [List.foldlM_cons, Option.bind_eq_bind, Option.bind_eq_some_iff] at followed
      obtain ⟨inner, isInner, later⟩ := followed
      rw [List.foldl_cons, ← eq_next_of_follow? isInner]
      exact ih later

/-- Steps that stay lead to the same place below any directory. -/
theorem foldl_enter_append {steps : List PathComponent} (base : List String) {below : List String}
    (stay : PathComponent.stayWithin below.length steps = true) :
    steps.foldl enter (base ++ below) = base ++ steps.foldl enter below := by
  induction steps generalizing below with
  | nil => rfl
  | cons component rest ih =>
      rw [List.foldl_cons, List.foldl_cons]
      cases component with
      | root => cases stay
      | here => exact ih stay
      | up =>
          -- There is a name below the base to be left, so the base is not touched.
          rcases List.eq_nil_or_concat below with rfl | ⟨outer, name, rfl⟩
          · cases stay
          · rw [List.concat_eq_append] at stay ⊢
            rw [List.length_append] at stay
            have left : enter (base ++ (outer ++ [name])) .up = base ++ outer := by
              rw [enter, ← List.append_assoc, List.dropLast_concat]
            have right : enter (outer ++ [name]) .up = outer := List.dropLast_concat
            rw [left, right]
            exact ih stay
      | name text =>
          have left : enter (base ++ below) (.name text) = base ++ (below ++ [text]) :=
            List.append_assoc base below [text]
          rw [left]
          exact ih (by rwa [List.length_append])

theorem fileAt?_put_empty {place : List String} (isFree : system.treeAt? place = none) :
    (system.put .empty place).fileAt? = system.fileAt? :=
  funext (FileTree.content?_put_empty isFree)

theorem enterOrMake?_keeps {made : FileSystem × List String} {place : List String} {segment : String}
    (isMade : system.enterOrMake? place segment = some made) :
    made.1.fileAt? = system.fileAt? ∧ made.1.here = system.here := by
  unfold enterOrMake? at isMade
  simp only at isMade
  split at isMade
  · cases isMade
  · split at isMade
    · next isFree =>
        cases isMade
        exact ⟨fileAt?_put_empty isFree, rfl⟩
    · split at isMade
      · cases isMade
        exact ⟨rfl, rfl⟩
      · cases isMade

theorem foldlM_enterOrMake?_keeps {segments : List String}
    {state made : FileSystem × List String}
    (areMade : segments.foldlM (fun state segment => enterOrMake? state.1 state.2 segment) state =
      some made) :
    made.1.fileAt? = state.1.fileAt? ∧ made.1.here = state.1.here := by
  induction segments generalizing state with
  | nil =>
      cases areMade
      exact ⟨rfl, rfl⟩
  | cons segment rest ih =>
      rw [List.foldlM_cons, Option.bind_eq_bind, Option.bind_eq_some_iff] at areMade
      obtain ⟨inner, isMade, areMade⟩ := areMade
      obtain ⟨files, here⟩ := enterOrMake?_keeps isMade
      obtain ⟨laterFiles, laterHere⟩ := ih areMade
      exact ⟨laterFiles.trans files, laterHere.trans here⟩

/-- Making directories leaves all files as they are. -/
theorem makeDirectories?_keeps {path : Path} (areMade : system.makeDirectories? path = some after) :
    after.fileAt? = system.fileAt? ∧ after.here = system.here := by
  unfold makeDirectories? at areMade
  split at areMade
  · obtain ⟨made, isMade, rfl⟩ := Option.map_eq_some_iff.mp areMade
    exact foldlM_enterOrMake?_keeps isMade
  · cases areMade

/-- Writing a file changes the content at the place that its path names. -/
theorem fileAt?_write? {path : Path} {content : ByteArray} (named : path.EndsInName)
    (written : system.write? path content = some after) :
    (∀ other, after.fileAt? other =
      if other = system.resolve path then some content else system.fileAt? other) ∧
    after.here = system.here := by
  simp only [write?, Option.bind_eq_bind, Option.bind_eq_some_iff] at written
  obtain ⟨name, isName, place, isPlace, isWritten⟩ := written
  split at isWritten
  · next may =>
      simp only [Bool.and_eq_true, Bool.not_eq_true'] at may
      obtain ⟨⟨-, isDirectory⟩, free⟩ := may
      cases isWritten
      have target : system.resolve path = place ++ [name] := by
        have split : path.segments = path.segments.dropLast ++ [name] :=
          (List.dropLast_append_getLast? name isName).symm
        rw [resolve, split, List.foldl_append, ← eq_foldl_of_follow? isPlace]
        exact next_of_isName place (named name isName)
      rw [target]
      exact ⟨fileAt?_put content isDirectory free, rfl⟩
  · cases isWritten

end FileSystem

end TemplateMarkup
