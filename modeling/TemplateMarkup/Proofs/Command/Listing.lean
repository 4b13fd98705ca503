import Mathlib.Data.List.Basic
import TemplateMarkup.Command.Discovery

/-!
# The listing of templates

The templates of a run are listed in the order of their paths, and each of them once, however often the
search has come upon it.  Paths with the same components count as one path.
-/

namespace TemplateMarkup

namespace PathComponent

/-- The text of a name, and nothing for the other kinds. -/
def nameText : PathComponent → String
  | name text => text
  | _ => ""

/-- Components are compared by their kinds first, and then by their texts. -/
theorem compare_eq_compareLex :
    (compare : PathComponent → PathComponent → Ordering) =
      compareLex (compareOn rank) (compareOn nameText) := by
  funext first second
  cases first <;> cases second <;> rfl

instance : Std.TransOrd PathComponent := by
  unfold Std.TransOrd
  rw [compare_eq_compareLex]
  infer_instance

instance : Std.LawfulEqOrd PathComponent where
  eq_of_compare {first second} same := by
    rw [compare_eq_compareLex, compareLex_eq_eq] at same
    obtain ⟨sameRank, sameText⟩ := same
    have sameRank : first.rank = second.rank := Std.LawfulEqCmp.eq_of_compare sameRank
    have sameText : first.nameText = second.nameText := Std.LawfulEqCmp.eq_of_compare sameText
    cases first <;> cases second <;> first | rfl | exact congrArg name sameText | cases sameRank

end PathComponent

namespace Path

theorem compare_eq_compare_components (first second : Path) :
    compare first second = List.compareLex compare first.components second.components :=
  rfl

instance : Std.TransOrd Path where
  eq_swap {first second} := by
    rw [compare_eq_compare_components, compare_eq_compare_components]
    exact Std.OrientedCmp.eq_swap
  isLE_trans {first second third} isLE isLE' := by
    rw [compare_eq_compare_components] at isLE isLE' ⊢
    exact Std.TransCmp.isLE_trans isLE isLE'

/-- Paths that neither comes before the other are the same. -/
theorem compare_eq_eq_iff_isSame {first second : Path} :
    compare first second = .eq ↔ first.isSame second := by
  rw [compare_eq_compare_components, Std.LawfulEqCmp.compare_eq_iff_eq, isSame, beq_iff_eq]

end Path

namespace Discovery

theorem dropRepeats_sublist (paths : List Path) : (dropRepeats paths).Sublist paths := by
  induction paths with
  | nil => exact .slnil
  | cons path rest ih =>
      rw [dropRepeats]
      split
      · next none => exact (List.nil_sublist rest).cons_cons path
      · next next later listed =>
          rw [listed] at ih
          split
          · exact ((List.sublist_cons_self next later).trans ih).cons_cons path
          · exact ih.cons_cons path

/-- The first of several paths that are the same is kept. -/
theorem head?_dropRepeats (paths : List Path) : (dropRepeats paths).head? = paths.head? := by
  cases paths with
  | nil => rfl
  | cons path rest =>
      rw [dropRepeats]
      split
      · rfl
      · split <;> rfl

theorem exists_isSame_dropRepeats {path : Path} {paths : List Path} (member : path ∈ paths) :
    ∃ listed ∈ dropRepeats paths, listed.isSame path := by
  induction paths with
  | nil => cases member
  | cons first rest ih =>
      have isFirst : first ∈ dropRepeats (first :: rest) :=
        List.mem_of_head? (head?_dropRepeats (first :: rest))
      rcases List.mem_cons.mp member with rfl | isLater
      · exact ⟨path, isFirst, beq_self_eq_true _⟩
      · obtain ⟨listed, isListed, same⟩ := ih isLater
        rw [dropRepeats] at isFirst ⊢
        split
        · next none =>
            rw [none] at isListed
            cases isListed
        · next next later found =>
            rw [found] at isListed
            split
            · next repeated =>
                rcases List.mem_cons.mp isListed with rfl | isLater
                · refine ⟨first, List.mem_cons_self, ?_⟩
                  rw [Path.isSame, beq_iff_eq] at repeated same ⊢
                  exact repeated.trans same
                · exact ⟨listed, .tail _ isLater, same⟩
            · exact ⟨listed, .tail _ isListed, same⟩

/-- In order, and without repeats, each path comes before the next one. -/
theorem pairwise_dropRepeats {paths : List Path}
    (sorted : paths.Pairwise fun first second => (compare first second).isLE) :
    (dropRepeats paths).Pairwise fun first second => compare first second = .lt := by
  induction paths with
  | nil => exact .nil
  | cons path rest ih =>
      obtain ⟨isLeast, sorted⟩ := List.pairwise_cons.mp sorted
      have ih := ih sorted
      have isLeast : ∀ listed ∈ dropRepeats rest, (compare path listed).isLE :=
        fun listed isListed => isLeast listed ((dropRepeats_sublist rest).subset isListed)
      rw [dropRepeats]
      split
      · exact List.pairwise_singleton _ _
      · next next later found =>
          rw [found] at ih isLeast
          obtain ⟨isBefore, ih'⟩ := List.pairwise_cons.mp ih
          have isLE := isLeast next List.mem_cons_self
          split
          · next repeated =>
              have same := Path.compare_eq_eq_iff_isSame.mpr repeated
              refine List.pairwise_cons.mpr ⟨fun listed isListed => ?_, ih'⟩
              rw [Std.TransCmp.congr_left same]
              exact isBefore listed isListed
          · next different =>
              have isLess : compare path next = .lt := by
                refine (Ordering.isLE_iff_eq_lt_or_eq_eq.mp isLE).resolve_right ?_
                exact mt Path.compare_eq_eq_iff_isSame.mp different
              refine List.pairwise_cons.mpr ⟨List.forall_mem_cons.mpr ⟨isLess, ?_⟩, ih⟩
              exact fun listed isListed => Std.TransCmp.lt_trans isLess (isBefore listed isListed)

/-- A search comes upon a path: the path itself is to be searched and leads to a file, or it is below a
directory to be searched. -/
def Finds (system : FileSystem) (settings : Settings) (arguments : Arguments) (path : Path) : Prop :=
  ∃ root ∈ roots settings arguments,
    (∃ content, system.find? root = some (.file content)) ∧ path = root ∨
      ∃ entries, system.find? root = some (.directory entries) ∧
        path ∈ templatesIn settings root (.directory entries)

/-- The paths are those that a search comes upon, in order and without repeats. -/
structure IsListing (system : FileSystem) (settings : Settings) (arguments : Arguments)
    (paths : List Path) : Prop where
  sorted : paths.Pairwise fun first second => compare first second = .lt
  found : ∀ path ∈ paths, Finds system settings arguments path
  complete : ∀ path, Finds system settings arguments path → ∃ listed ∈ paths, listed.isSame path

variable {system : FileSystem} {settings : Settings} {arguments : Arguments}

/-- What a search comes upon at a path. -/
def reached (system : FileSystem) (settings : Settings) (root : Path) : List Path :=
  match system.find? root with
  | none => []
  | some (.file _) => [root]
  | some (.directory entries) => templatesIn settings root (.directory entries)

theorem finds_iff {path : Path} : Finds system settings arguments path ↔
    ∃ root ∈ roots settings arguments, path ∈ reached system settings root := by
  refine exists_congr fun root => and_congr_right fun _ => ?_
  unfold reached
  rcases system.find? root with _ | content | entries <;> simp

theorem templatesOf_eq_ok {root : Path} (isThere : (system.find? root).isSome) :
    templatesOf system settings root = .ok (reached system settings root) := by
  unfold templatesOf reached
  rcases found : system.find? root with _ | content | entries
  · rw [found] at isThere
    cases isThere
  · rfl
  · rfl

/-- Where every path leads somewhere, the search comes to an end. -/
theorem mapM_templatesOf {paths : List Path} (areThere : ∀ root ∈ paths, (system.find? root).isSome) :
    paths.mapM (templatesOf system settings) = .ok (paths.map (reached system settings)) := by
  induction paths with
  | nil => rfl
  | cons root rest ih =>
      obtain ⟨isThere, areThere⟩ := List.forall_mem_cons.mp areThere
      rw [List.mapM_cons, templatesOf_eq_ok isThere, ih areThere]
      rfl

/-- Everything that a search comes upon, in order. -/
def inOrder (system : FileSystem) (settings : Settings) (arguments : Arguments) : List Path :=
  ((roots settings arguments).flatMap (reached system settings)).mergeSort
    fun first second => (compare first second).isLE

theorem mem_inOrder {path : Path} :
    path ∈ inOrder system settings arguments ↔ Finds system settings arguments path := by
  rw [inOrder, List.mem_mergeSort, List.mem_flatMap, finds_iff]

theorem pairwise_inOrder : (inOrder system settings arguments).Pairwise
    fun first second => (compare first second).isLE := by
  refine List.pairwise_mergeSort (fun _ _ _ isLE isLE' => ?_) (fun first second => ?_) _
  · exact Std.TransCmp.isLE_trans isLE isLE'
  · have swap : compare second first = (compare first second).swap := Std.OrientedCmp.eq_swap
    rw [swap]
    cases compare first second <;> rfl

theorem templates_eq_ok
    (areThere : ∀ root ∈ roots settings arguments, (system.find? root).isSome) :
    templates system settings arguments =
      .ok (dropRepeats (inOrder system settings arguments)) := by
  rw [templates, mapM_templatesOf areThere, inOrder, List.flatMap_def]
  rfl

/-- If every path to be searched leads somewhere, the templates are a listing. -/
theorem exists_listing
    (areThere : ∀ root ∈ roots settings arguments, (system.find? root).isSome) :
    ∃ paths, templates system settings arguments = .ok paths ∧
      IsListing system settings arguments paths := by
  exact ⟨_, templates_eq_ok areThere, {
    sorted := pairwise_dropRepeats pairwise_inOrder
    found := fun path listed => mem_inOrder.mp ((dropRepeats_sublist _).subset listed)
    complete := fun path isFound => exists_isSame_dropRepeats (mem_inOrder.mpr isFound) }⟩

theorem isSome_find?_of_mapM {found : List (List Path)} {paths : List Path}
    (isFound : paths.mapM (templatesOf system settings) = .ok found) :
    ∀ root ∈ paths, (system.find? root).isSome := by
  induction paths generalizing found with
  | nil => exact List.forall_mem_nil _
  | cons root rest ih =>
      rw [List.mapM_cons] at isFound
      refine List.forall_mem_cons.mpr ⟨?_, ?_⟩
      · unfold templatesOf at isFound
        cases isThere : system.find? root with
        | none =>
            rw [isThere] at isFound
            cases isFound
        | some tree => rfl
      · cases first : templatesOf system settings root with
        | error failure =>
            rw [first] at isFound
            cases isFound
        | ok listed =>
            cases later : rest.mapM (templatesOf system settings) with
            | error failure =>
                rw [first, later] at isFound
                cases isFound
            | ok others => exact ih later

/-- A search that comes to an end has found something at every path. -/
theorem isSome_find?_of_templates {paths : List Path}
    (finds : templates system settings arguments = .ok paths) :
    ∀ root ∈ roots settings arguments, (system.find? root).isSome := by
  cases found : (roots settings arguments).mapM (templatesOf system settings) with
  | error failure =>
      rw [templates, found] at finds
      cases finds
  | ok found' => exact isSome_find?_of_mapM found

/-- The templates that have been found are a listing. -/
theorem isListing_of_templates {paths : List Path}
    (finds : templates system settings arguments = .ok paths) :
    IsListing system settings arguments paths := by
  obtain ⟨listed, isFound, listing⟩ := exists_listing (isSome_find?_of_templates finds)
  rw [finds] at isFound
  cases isFound
  exact listing

theorem dropRepeats_of_pairwise {paths : List Path}
    (sorted : paths.Pairwise fun first second => compare first second = .lt) :
    dropRepeats paths = paths := by
  induction paths with
  | nil => rfl
  | cons path rest ih =>
      obtain ⟨isBefore, sorted⟩ := List.pairwise_cons.mp sorted
      rw [dropRepeats, ih sorted]
      cases rest with
      | nil => rfl
      | cons next later =>
          have isLess := isBefore next List.mem_cons_self
          have different : ¬ path.isSame next := by
            rw [← Path.compare_eq_eq_iff_isSame, isLess]
            exact Ordering.noConfusion
          exact if_neg different

/-- A search that comes upon the paths in order lists them without the repeats. -/
theorem templates_of_reached_inOrder {paths : List Path}
    (areThere : ∀ root ∈ roots settings arguments, (system.find? root).isSome)
    (areReached : (roots settings arguments).flatMap (reached system settings) = paths)
    (sorted : paths.Pairwise fun first second => (compare first second).isLE) :
    templates system settings arguments = .ok (dropRepeats paths) := by
  rw [templates_eq_ok areThere, inOrder, areReached, List.mergeSort_of_pairwise sorted]

/-- A search that comes upon each path once, and in order, lists them as they are. -/
theorem templates_of_reached {paths : List Path}
    (areThere : ∀ root ∈ roots settings arguments, (system.find? root).isSome)
    (areReached : (roots settings arguments).flatMap (reached system settings) = paths)
    (sorted : paths.Pairwise fun first second => compare first second = .lt) :
    templates system settings arguments = .ok paths := by
  have isLE : paths.Pairwise fun first second => (compare first second).isLE := by
    refine sorted.imp fun isLess => ?_
    rw [isLess]
    rfl
  rw [templates_of_reached_inOrder areThere areReached isLE, dropRepeats_of_pairwise sorted]

end Discovery

end TemplateMarkup
