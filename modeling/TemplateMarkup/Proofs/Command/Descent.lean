import TemplateMarkup.Proofs.Command.Discovery
import TemplateMarkup.Proofs.Files.Steps

/-!
# Ways down from a directory

The path that goes down from a directory by the names of files has their names as its last segments,
whatever is written before them.  So the file at its end is named in the directory by these names, and
the path tells the names.
-/

namespace TemplateMarkup

namespace Path

/-- A name that an entry of a directory can have. -/
structure IsFileName (name : String) : Prop where
  meaningful : isTrivial name = false
  notUp : name ≠ ".."
  noSlash : '/' ∉ name.toList

instance (name : String) : Decidable (IsFileName name) :=
  decidable_of_iff (isTrivial name = false ∧ name ≠ ".." ∧ '/' ∉ name.toList)
    ⟨fun ⟨meaningful, notUp, noSlash⟩ => ⟨meaningful, notUp, noSlash⟩,
      fun ⟨meaningful, notUp, noSlash⟩ => ⟨meaningful, notUp, noSlash⟩⟩

section Names

variable {name : String} {names : List String}

theorem IsFileName.component?_eq (isName : IsFileName name) : component? name = some (.name name) := by
  rw [component?, isName.meaningful, if_neg Bool.false_ne_true, if_neg (by simpa using isName.notUp)]

theorem IsFileName.isAbsolute_eq (isName : IsFileName name) : isAbsolute ⟨name⟩ = false := by
  have noSlash := isName.noSlash
  rw [isAbsolute, beq_eq_false_iff_ne]
  exact fun isFirst => noSlash (List.mem_of_head? isFirst)

theorem IsFileName.segments_eq (isName : IsFileName name) : segments ⟨name⟩ = [name] := by
  rw [segments, splitAtSlashes_eq_splitOn, List.splitOn_eq_singleton isName.noSlash]
  simp

theorem filterMap_component? (areNames : ∀ name ∈ names, IsFileName name) :
    names.filterMap component? = names.map .name := by
  induction names with
  | nil => rfl
  | cons name rest ih =>
      obtain ⟨isName, areNames⟩ := List.forall_mem_cons.mp areNames
      rw [List.filterMap_cons_some isName.component?_eq, ih areNames, List.map_cons]

theorem trimEnd_dropWhile_of_names (areNames : ∀ name ∈ names, IsFileName name) :
    trimEnd (names.dropWhile isTrivial) = names := by
  have stays {names : List String} (areNames : ∀ name ∈ names, IsFileName name) :
      names.dropWhile isTrivial = names := by
    cases names with
    | nil => rfl
    | cons name rest =>
        exact List.dropWhile_cons_of_neg (by simp [(areNames name List.mem_cons_self).meaningful])
  rw [stays areNames, trimEnd, stays fun name member => areNames name (List.mem_reverse.mp member),
    List.reverse_reverse]

end Names

/-- A path that starts neither with a slash nor with nothing starts with a segment. -/
theorem exists_segments_of_relative {path : Path} (relative : path.isAbsolute = false)
    (notEmpty : path.text.isEmpty = false) :
    ∃ first later, path.segments = first :: later ∧ first ≠ "" := by
  rw [isAbsolute] at relative
  rw [segments]
  cases text : path.text.toList with
  | nil =>
      rw [String.toList_eq_nil_iff.mp text] at notEmpty
      cases notEmpty
  | cons character rest =>
      rw [text, List.head?_cons] at relative
      rw [splitAtSlashes, if_neg (by simpa using relative)]
      have isMore (segment : List Char) : String.ofList (character :: segment) ≠ "" := by
        intro none
        have noText := congrArg String.toList none
        rw [String.toList_ofList] at noText
        cases noText
      split
      · exact ⟨_, [], rfl, isMore []⟩
      · next segment later _ => exact ⟨_, _, rfl, isMore segment⟩

/-- A path that is not empty has components. -/
theorem components_ne_nil {path : Path} (notEmpty : path.text.isEmpty = false) :
    path.components ≠ [] := by
  rw [components_eq_steps, leading?]
  split
  · exact List.cons_ne_nil _ _
  · next notAbsolute =>
      obtain ⟨first, later, segments, notNothing⟩ :=
        exists_segments_of_relative (Bool.eq_false_iff.mpr notAbsolute) notEmpty
      split
      · exact List.cons_ne_nil _ _
      · next notHere =>
          have meaningful : isTrivial first = false := by
            rw [segments, List.head?_cons, beq_iff_eq, Option.some.injEq] at notHere
            simp [isTrivial, notNothing, notHere]
          obtain ⟨component, means⟩ := component?_isSome meaningful
          rw [steps, segments, List.filterMap_cons_some means]
          exact List.cons_ne_nil _ _

/-- The path has the same start as another one, and other segments after it.  Nothing after the start of
the other path means anything. -/
structure Continues (base path : Path) (start rest back : List String) : Prop where
  notEmpty : start ≠ []
  trivial : rest.filterMap component? = []
  base_eq : base.segments = start ++ rest
  path_eq : path.segments = start ++ back
  isAbsolute_eq : path.isAbsolute = base.isAbsolute

namespace Continues

variable {base path : Path} {start rest back : List String}

theorem leading?_eq (continues : Continues base path start rest back) :
    path.leading? = base.leading? := by
  rw [leading?, leading?, continues.isAbsolute_eq, continues.base_eq, continues.path_eq,
    List.head?_append_of_ne_nil _ continues.notEmpty,
    List.head?_append_of_ne_nil _ continues.notEmpty]

theorem components_eq (continues : Continues base path start rest back) :
    path.components = base.components ++ back.filterMap component? := by
  rw [components_eq_steps, components_eq_steps, continues.leading?_eq, steps, steps,
    continues.base_eq, continues.path_eq, List.filterMap_append, List.filterMap_append,
    continues.trivial, List.append_nil, List.append_assoc]

/-- After the meaningful segments of a front everything else of the front is dropped. -/
theorem dropWhile_dropMeaningful (front back : List String) :
    (dropMeaningful (front.filterMap component?).length (front ++ back)).dropWhile isTrivial =
      back.dropWhile isTrivial := by
  induction front with
  | nil =>
      rw [List.filterMap_nil, List.length_nil, dropMeaningful]
      rfl
  | cons segment front ih =>
      cases trivial : isTrivial segment with
      | true =>
          rw [List.filterMap_cons_none (component?_of_isTrivial trivial), List.cons_append]
          rw [← ih]
          cases (front.filterMap component?).length with
          | zero => rw [dropMeaningful, dropMeaningful, List.dropWhile_cons_of_pos trivial]
          | succ count => rw [dropMeaningful, if_pos trivial]
      | false =>
          obtain ⟨component, means⟩ := component?_isSome trivial
          rw [List.filterMap_cons_some means, List.cons_append, List.length_cons, dropMeaningful,
            if_neg (by simp [trivial]), ih]

/-- In the other directory the path is named by what is after the start. -/
theorem relativeTo?_eq (continues : Continues base path start rest back)
    (notEmpty : base.text.isEmpty = false) :
    path.relativeTo? base = some (ofSegments (trimEnd (back.dropWhile isTrivial))) := by
  have isBelow : base.components.isPrefixOf path.components := by
    rw [continues.components_eq]
    exact List.isPrefixOf_iff_prefix.mpr (List.prefix_append _ _)
  have isSome : (base.components.length == 0) = false := by
    rw [beq_eq_false_iff_ne, ne_eq, List.length_eq_zero_iff]
    exact components_ne_nil notEmpty
  rw [relativeTo?, isBelow, if_pos rfl, isSome, if_neg Bool.false_ne_true]
  -- What is dropped is the body of the start, whose segments are those of the base.
  obtain ⟨front, baseBody, pathBody⟩ : ∃ front, base.body = front ++ rest ∧
      path.body = front ++ back := by
    rw [body, body, continues.leading?_eq, continues.base_eq, continues.path_eq]
    split
    · exact ⟨start.tail, List.tail_append_of_ne_nil continues.notEmpty,
        List.tail_append_of_ne_nil continues.notEmpty⟩
    · exact ⟨start, rfl, rfl⟩
  have count : (if path.leading?.isSome then base.components.length - 1 else base.components.length) =
      (front.filterMap component?).length := by
    rw [continues.leading?_eq, components, baseBody, List.filterMap_append, continues.trivial,
      List.append_nil, List.length_append]
    cases base.leading? with
    | none => exact Nat.zero_add _
    | some component => exact Nat.add_sub_cancel_left 1 _
  dsimp only
  rw [count, pathBody, dropWhile_dropMeaningful]

/-- Every segment of the path but the last is one of the other path or one that is written after the
start. -/
theorem mem_dropLast (continues : Continues base path start rest back) {segment : String}
    (member : segment ∈ path.segments.dropLast) :
    segment ∈ base.segments ∨ segment ∈ back.dropLast := by
  rw [continues.path_eq, List.dropLast_append] at member
  rw [continues.base_eq]
  split at member
  · exact .inl (List.mem_append_left _ (List.dropLast_subset _ member))
  · rcases List.mem_append.mp member with isBefore | isAfter
    · exact .inl (List.mem_append_left _ isBefore)
    · exact .inr isAfter

/-- A name among the segments of the other path is one of the path, and not the last one if more is
written after the start. -/
theorem mem_of_mem_segments (continues : Continues base path start rest back)
    (isMore : back ≠ []) {segment : String} (isName : IsFileName segment)
    (member : segment ∈ base.segments) : segment ∈ path.segments.dropLast := by
  rw [continues.path_eq, List.dropLast_append_of_ne_nil isMore]
  rw [continues.base_eq] at member
  refine List.mem_append_left _ ((List.mem_append.mp member).resolve_right fun isRest => ?_)
  have none := List.filterMap_eq_nil_iff.mp continues.trivial segment isRest
  cases none.symm.trans isName.component?_eq

end Continues

variable {base : Path} {name : String} {names : List String}

theorem exists_continues_join (isName : IsFileName name) (notEmpty : base.text.isEmpty = false) :
    ∃ start rest, Continues base (base.join ⟨name⟩) start rest [name] := by
  obtain ⟨start, rest, isMore, trivial, base_eq, path_eq⟩ :=
    exists_segments_join isName.isAbsolute_eq notEmpty
  rw [isName.segments_eq] at path_eq
  exact ⟨start, rest, isMore, trivial, base_eq, path_eq, isAbsolute_join isName.isAbsolute_eq⟩

theorem isEmpty_join (base : Path) (isName : IsFileName name) :
    (base.join ⟨name⟩).text.isEmpty = false := by
  have isMore : name ≠ "" := by
    rintro rfl
    exact absurd isName.meaningful (by decide)
  rw [join, isName.isAbsolute_eq, if_neg Bool.false_ne_true, String.isEmpty_eq_false_iff]
  split <;> simp [isMore]

/-- A way down from a path continues it by the names on the way. -/
theorem exists_continues_descend (areNames : ∀ name ∈ names, IsFileName name)
    (notEmpty : base.text.isEmpty = false) :
    ∃ start rest, Continues base (base.descend names) start rest names := by
  induction names generalizing base with
  | nil =>
      have whole := (List.append_nil base.segments).symm
      exact ⟨base.segments, [], segments_ne_nil base, rfl, whole, whole, rfl⟩
  | cons name names ih =>
      obtain ⟨isName, areNames⟩ := List.forall_mem_cons.mp areNames
      obtain ⟨start, rest, first⟩ := exists_continues_join isName notEmpty
      obtain ⟨start', rest', later⟩ := ih areNames (isEmpty_join base isName)
      -- The name is meaningful, so it is part of the start of what is below it.
      have together := first.path_eq.symm.trans later.base_eq
      have start'_eq : start' = start ++ [name] := by
        rcases List.eq_nil_or_concat rest' with rfl | ⟨before, last, isRest⟩
        · rw [together, List.append_nil]
        · rw [List.concat_eq_append] at isRest
          subst isRest
          rw [← List.append_assoc] at together
          obtain rfl := List.singleton_inj.mp (List.append_inj' together rfl).2
          have trivial := later.trivial
          rw [List.filterMap_append, List.filterMap_cons_some isName.component?_eq] at trivial
          simp at trivial
      refine ⟨start, rest, first.notEmpty, first.trivial, first.base_eq, ?_, ?_⟩
      · rw [descend_cons, later.path_eq, start'_eq, List.append_assoc, List.singleton_append]
      · rw [descend_cons, later.isAbsolute_eq, first.isAbsolute_eq]

theorem components_descend (areNames : ∀ name ∈ names, IsFileName name)
    (notEmpty : base.text.isEmpty = false) :
    (base.descend names).components = base.components ++ names.map .name := by
  obtain ⟨start, rest, continues⟩ := exists_continues_descend areNames notEmpty
  rw [continues.components_eq, filterMap_component? areNames]

/-- The file at the end of a way has the last name on it. -/
theorem fileName?_descend (areNames : ∀ name ∈ names, IsFileName name)
    (notEmpty : base.text.isEmpty = false) (isMore : names ≠ []) :
    (base.descend names).fileName? = names.getLast? := by
  rw [fileName?, components_descend areNames notEmpty,
    List.getLast?_append_of_ne_nil _ (by simpa using isMore), List.getLast?_map]
  cases names.getLast? <;> rfl

/-- A way down from a path is named by the names on it. -/
theorem relativeTo?_descend (areNames : ∀ name ∈ names, IsFileName name)
    (notEmpty : base.text.isEmpty = false) :
    (base.descend names).relativeTo? base = some (ofSegments names) := by
  obtain ⟨start, rest, continues⟩ := exists_continues_descend areNames notEmpty
  rw [continues.relativeTo?_eq notEmpty, trimEnd_dropWhile_of_names areNames]

theorem dropLast_segments_ofSegments (areNames : ∀ name ∈ names, IsFileName name) :
    (ofSegments names).segments.dropLast = names.dropLast := by
  cases names with
  | nil => decide
  | cons name rest =>
      rw [segments_ofSegments (List.cons_ne_nil _ _) fun name member => (areNames name member).noSlash]

end Path

/-- A directory is no file. -/
theorem FileTree.LeadsToFile.ne_nil {entries : List (String × FileTree)} {names : List String}
    (leads : (FileTree.directory entries).LeadsToFile names) : names ≠ [] := by
  cases leads
  exact List.cons_ne_nil _ _

end TemplateMarkup
