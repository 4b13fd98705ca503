import Mathlib.Data.List.DropRight
import TemplateMarkup.Files.Path

/-!
# Steps of paths

What a path means apart from where it starts: the names and pairs of dots among its segments.  A
joined path has the steps of both its parts.  If a path is named from another one, the components of the
two make up those of the path.
-/

namespace TemplateMarkup

namespace Path

theorem splitAtSlashes_eq_splitOn (text : List Char) : splitAtSlashes text = text.splitOn '/' := by
  induction text with
  | nil => rfl
  | cons character rest ih =>
      rw [splitAtSlashes, List.splitOn_cons_eq_if_modifyHead, ih]
      split
      · rfl
      · cases split : rest.splitOn '/' with
        | nil => exact absurd split (List.splitOn_ne_nil _ _)
        | cons segment later => rfl

/-- A slash ends a segment. -/
theorem segments_append_slash (front back : String) :
    segments ⟨front ++ "/" ++ back⟩ = segments ⟨front⟩ ++ segments ⟨back⟩ := by
  have text : (front ++ "/" ++ back).toList = front.toList ++ '/' :: back.toList := by
    rw [String.toList_append, String.toList_append, List.append_assoc]
    rfl
  simp only [segments, splitAtSlashes_eq_splitOn, text, List.splitOn_append_cons_self,
    List.map_append]

/-- Text without slashes belongs to the last segment. -/
theorem exists_splitAtSlashes_append (front : List Char) {back : List Char} (noSlash : '/' ∉ back) :
    ∃ start last, splitAtSlashes front = start ++ [last] ∧
      splitAtSlashes (front ++ back) = start ++ [last ++ back] := by
  induction front with
  | nil =>
      refine ⟨[], [], rfl, ?_⟩
      rw [splitAtSlashes_eq_splitOn]
      exact List.splitOn_eq_singleton noSlash
  | cons character rest ih =>
      obtain ⟨start, last, alone, together⟩ := ih
      rw [List.cons_append, splitAtSlashes, splitAtSlashes, alone, together]
      split
      · exact ⟨[] :: start, last, rfl, rfl⟩
      · cases start with
        | nil => exact ⟨[], character :: last, rfl, rfl⟩
        | cons first others => exact ⟨(character :: first) :: others, last, rfl, rfl⟩

theorem exists_segments_append (front : String) {back : String} (noSlash : '/' ∉ back.toList) :
    ∃ start last, segments ⟨front⟩ = start ++ [last] ∧
      segments ⟨front ++ back⟩ = start ++ [last ++ back] := by
  obtain ⟨start, last, alone, together⟩ := exists_splitAtSlashes_append front.toList noSlash
  refine ⟨start.map String.ofList, String.ofList last, ?_, ?_⟩
  · rw [segments, alone, List.map_append]
    rfl
  · rw [segments, String.toList_append, together, List.map_append]
    simp

theorem segments_ne_nil (path : Path) : path.segments ≠ [] := by
  rw [segments, splitAtSlashes_eq_splitOn, ne_eq, List.map_eq_nil_iff]
  exact List.splitOn_ne_nil _ _

theorem not_mem_splitAtSlashes {text segment : List Char} (member : segment ∈ splitAtSlashes text) :
    '/' ∉ segment := by
  induction text generalizing segment with
  | nil =>
      rw [List.mem_singleton.mp member]
      exact List.not_mem_nil
  | cons character rest ih =>
      rw [splitAtSlashes] at member
      split at member
      · rcases List.mem_cons.mp member with rfl | isLater
        · exact List.not_mem_nil
        · exact ih isLater
      · next notSlash =>
          have different : '/' ≠ character := fun same => notSlash (beq_iff_eq.mpr same.symm)
          split at member
          · rw [List.mem_singleton.mp member]
            simpa using different
          · next first later split =>
              rw [split] at ih
              rcases List.mem_cons.mp member with rfl | isLater
              · exact List.not_mem_cons_of_ne_of_not_mem different (ih List.mem_cons_self)
              · exact ih (List.mem_cons_of_mem _ isLater)

theorem not_mem_of_mem_segments {path : Path} {segment : String} (member : segment ∈ path.segments) :
    '/' ∉ segment.toList := by
  obtain ⟨text, isSegment, rfl⟩ := List.mem_map.mp member
  rw [String.toList_ofList]
  exact not_mem_splitAtSlashes isSegment

/-- Segments without slashes are got back from their path. -/
theorem segments_ofSegments {segments : List String} (isMore : segments ≠ [])
    (noSlash : ∀ segment ∈ segments, '/' ∉ segment.toList) :
    (ofSegments segments).segments = segments := by
  have split : (['/'].intercalate (segments.map String.toList)).splitOn '/' =
      segments.map String.toList :=
    List.splitOn_intercalate '/' (List.forall_mem_map.mpr noSlash) (mt List.map_eq_nil_iff.mp isMore)
  rw [Path.segments, ofSegments, splitAtSlashes_eq_splitOn, String.toList_intercalate]
  rw [show "/".toList = ['/'] by decide, split, List.map_map]
  simp [Function.comp_def]

/-- An absolute path starts with an empty segment. -/
theorem head?_segments_of_isAbsolute {path : Path} (absolute : path.isAbsolute = true) :
    path.segments.head? = some "" := by
  unfold isAbsolute at absolute
  rw [segments]
  cases text : path.text.toList with
  | nil =>
      rw [text] at absolute
      cases absolute
  | cons character rest =>
      rw [text] at absolute
      rw [splitAtSlashes, if_pos (by simpa using absolute)]
      rfl

/-- What the segments of a path mean, wherever it starts. -/
def steps (path : Path) : List PathComponent := path.segments.filterMap component?

theorem component?_of_isTrivial {segment : String} (trivial : isTrivial segment = true) :
    component? segment = none := by
  rw [component?, if_pos trivial]

/-- The components of a path are its start and its steps. -/
theorem components_eq_steps (path : Path) :
    path.components = path.leading?.toList ++ path.steps := by
  rw [components, body, steps]
  split
  · next leads =>
      -- The start of a path is made of a segment that is no step.
      have isFirst : ∃ first, path.segments.head? = some first ∧ isTrivial first = true := by
        unfold leading? at leads
        split at leads
        · next absolute => exact ⟨"", head?_segments_of_isAbsolute absolute, by decide⟩
        · split at leads
          · next here => exact ⟨".", beq_iff_eq.mp here, by decide⟩
          · cases leads
      obtain ⟨first, isFirst, trivial⟩ := isFirst
      obtain ⟨later, segments⟩ := List.head?_eq_some_iff.mp isFirst
      rw [segments, List.filterMap_cons_none (component?_of_isTrivial trivial), List.tail_cons]
  · rfl

theorem filterMap_dropWhile_isTrivial (segments : List String) :
    (segments.dropWhile isTrivial).filterMap component? = segments.filterMap component? := by
  induction segments with
  | nil => rfl
  | cons segment rest ih =>
      rw [List.dropWhile_cons]
      split
      · next trivial => rw [ih, List.filterMap_cons_none (component?_of_isTrivial trivial)]
      · rfl

theorem filterMap_trimEnd (segments : List String) :
    (trimEnd segments).filterMap component? = segments.filterMap component? := by
  rw [trimEnd, List.filterMap_reverse, filterMap_dropWhile_isTrivial, List.filterMap_reverse,
    List.reverse_reverse]

theorem component?_isSome {segment : String} (meaningful : isTrivial segment = false) :
    ∃ component, component? segment = some component := by
  rw [component?, meaningful, if_neg Bool.false_ne_true]
  split
  · exact ⟨_, rfl⟩
  · exact ⟨_, rfl⟩

theorem filterMap_dropMeaningful (count : Nat) (segments : List String) :
    (dropMeaningful count segments).filterMap component? =
      (segments.filterMap component?).drop count := by
  induction segments generalizing count with
  | nil => cases count <;> rfl
  | cons segment rest ih =>
      cases count with
      | zero => rfl
      | succ count =>
          rw [dropMeaningful]
          cases trivial : isTrivial segment with
          | true =>
              rw [if_pos rfl, ih, List.filterMap_cons_none (component?_of_isTrivial trivial)]
          | false =>
              obtain ⟨component, means⟩ := component?_isSome trivial
              rw [if_neg Bool.false_ne_true, ih, List.filterMap_cons_some means, List.drop_succ_cons]

/-- A path that starts with a meaningful segment has no other start. -/
theorem components_ofSegments {segments : List String}
    (noSlash : ∀ segment ∈ segments, '/' ∉ segment.toList)
    (meaningful : ∀ first, segments.head? = some first → isTrivial first = false) :
    (ofSegments segments).components = segments.filterMap component? := by
  by_cases isMore : segments = []
  · subst isMore
    decide
  · have back := segments_ofSegments isMore noSlash
    have starts : (ofSegments segments).leading? = none := by
      rw [leading?, back, if_neg, if_neg]
      · intro here
        exact absurd (meaningful _ (beq_iff_eq.mp here)) (by decide)
      · intro absolute
        exact absurd (meaningful _ (back ▸ head?_segments_of_isAbsolute absolute)) (by decide)
    rw [components_eq_steps, starts, steps, back]
    rfl

/-- Slashes at the start of a path are no steps. -/
theorem steps_dropSlashes (text : String) :
    steps ⟨String.ofList (text.toList.dropWhile (· == '/'))⟩ = steps ⟨text⟩ := by
  rw [steps, steps, segments, segments, String.toList_ofList]
  induction text.toList with
  | nil => rfl
  | cons character rest ih =>
      rw [List.dropWhile_cons]
      split
      · next slash =>
          rw [ih, splitAtSlashes, if_pos slash, List.map_cons]
          exact (List.filterMap_cons_none (component?_of_isTrivial (by decide))).symm
      · rfl

theorem mem_of_mem_dropMeaningful {count : Nat} {segments : List String} {segment : String}
    (member : segment ∈ dropMeaningful count segments) : segment ∈ segments := by
  induction segments generalizing count with
  | nil => cases count <;> exact member
  | cons first rest ih =>
      cases count with
      | zero => exact member
      | succ count =>
          rw [dropMeaningful] at member
          split at member
          · exact .tail _ (ih member)
          · exact .tail _ (ih member)

/-- The rest of a path starts with a meaningful segment. -/
theorem isTrivial_of_head?_trimEnd {segments : List String} {first : String}
    (isFirst : (trimEnd (segments.dropWhile isTrivial)).head? = some first) :
    isTrivial first = false := by
  have start : trimEnd (segments.dropWhile isTrivial) <+: segments.dropWhile isTrivial :=
    List.rdropWhile_prefix isTrivial _
  obtain ⟨later, isRest⟩ := List.head?_eq_some_iff.mp isFirst
  have head : (segments.dropWhile isTrivial).head? = some first := by
    obtain ⟨dropped, whole⟩ := start
    rw [← whole, isRest]
    rfl
  have meaningful := List.head?_dropWhile_not isTrivial segments
  rw [head] at meaningful
  simpa using meaningful

/-- What is left of a path without some meaningful segments. -/
theorem components_dropMeaningful (path : Path) (count : Nat) :
    (ofSegments (trimEnd ((dropMeaningful count path.body).dropWhile isTrivial))).components =
      (path.body.filterMap component?).drop count := by
  rw [components_ofSegments, filterMap_trimEnd, filterMap_dropWhile_isTrivial,
    filterMap_dropMeaningful]
  · intro segment member
    have isLeft : segment ∈ (dropMeaningful count path.body).dropWhile isTrivial :=
      (List.rdropWhile_prefix isTrivial _).subset member
    have isSegment : segment ∈ path.body :=
      mem_of_mem_dropMeaningful ((List.dropWhile_suffix isTrivial).subset isLeft)
    rw [body] at isSegment
    split at isSegment
    · exact not_mem_of_mem_segments (List.mem_of_mem_tail isSegment)
    · exact not_mem_of_mem_segments isSegment
  · exact fun first isFirst => isTrivial_of_head?_trimEnd isFirst

theorem drop_components (path : Path) {count : Nat} (positive : count ≠ 0) :
    (path.body.filterMap component?).drop
      (if path.leading?.isSome then count - 1 else count) = path.components.drop count := by
  rw [components]
  cases path.leading? with
  | none => rfl
  | some component =>
      obtain ⟨rest, rfl⟩ := Nat.exists_eq_succ_of_ne_zero positive
      rfl

/-- A path below another one has the components of the other one and its own. -/
theorem components_of_relativeTo? {path base rest : Path}
    (isRest : path.relativeTo? base = some rest) :
    path.components = base.components ++ rest.components := by
  simp only [relativeTo?] at isRest
  split at isRest
  · next isBelow =>
      obtain ⟨later, whole⟩ := List.isPrefixOf_iff_prefix.mp isBelow
      by_cases isEmpty : (base.components.length == 0) = true
      · rw [if_pos isEmpty] at isRest
        cases isRest
        rw [List.length_eq_zero_iff.mp (beq_iff_eq.mp isEmpty), List.nil_append]
      · rw [if_neg isEmpty] at isRest
        cases isRest
        rw [components_dropMeaningful, drop_components path (mt beq_iff_eq.mpr isEmpty), ← whole,
          List.drop_left]
  · cases isRest

theorem exists_relativeTo? {path base : Path} (isBelow : base.components <+: path.components) :
    ∃ rest, path.relativeTo? base = some rest := by
  simp only [relativeTo?, List.isPrefixOf_iff_prefix.mpr isBelow, if_true]
  split
  · exact ⟨_, rfl⟩
  · exact ⟨_, rfl⟩

/-- The segments of a joined path are those of the one path, up to a slash at its end, and those of the
other. -/
theorem exists_segments_join {path other : Path} (relative : other.isAbsolute = false)
    (notEmpty : path.text.isEmpty = false) :
    ∃ start rest, start ≠ [] ∧ rest.filterMap component? = [] ∧ path.segments = start ++ rest ∧
      (path.join other).segments = start ++ other.segments := by
  rw [join, relative, notEmpty, if_neg Bool.false_ne_true, Bool.false_or]
  split
  · next slash =>
      obtain ⟨front, isText⟩ := List.getLast?_eq_some_iff.mp (beq_iff_eq.mp slash)
      have text : path.text = String.ofList front ++ "/" := by
        rw [← String.toList_inj, isText, String.toList_append, String.toList_ofList]
        rfl
      have alone : path.segments = segments ⟨String.ofList front⟩ ++ [""] := by
        have split := segments_append_slash (String.ofList front) ""
        rwa [String.append_empty, ← text] at split
      exact ⟨_, [""], segments_ne_nil _, by decide, alone,
        text ▸ segments_append_slash (String.ofList front) other.text⟩
  · exact ⟨path.segments, [], segments_ne_nil path, rfl, (List.append_nil _).symm,
      segments_append_slash path.text other.text⟩

theorem eq_of_isEmpty {path : Path} (isEmpty : path.text.isEmpty = true) : path = ⟨""⟩ :=
  congrArg mk (String.isEmpty_iff.mp isEmpty)

theorem join_empty (other : Path) : join ⟨""⟩ other = other := by
  rw [join, String.empty_append]
  exact ite_self other

theorem isAbsolute_join {path other : Path} (relative : other.isAbsolute = false) :
    (path.join other).isAbsolute = path.isAbsolute := by
  cases isEmpty : path.text.isEmpty with
  | true =>
      rw [eq_of_isEmpty isEmpty, join_empty, relative]
      rfl
  | false =>
      have isMore : path.text.toList ≠ [] := by
        intro none
        rw [String.toList_eq_nil_iff.mp none] at isEmpty
        cases isEmpty
      rw [join, relative, if_neg Bool.false_ne_true]
      split
      · rw [isAbsolute, isAbsolute, String.toList_append, List.head?_append_of_ne_nil _ isMore]
      · rw [isAbsolute, isAbsolute, String.toList_append, String.toList_append, List.append_assoc,
          List.head?_append_of_ne_nil _ isMore]

theorem steps_join {path other : Path} (relative : other.isAbsolute = false) :
    (path.join other).steps = path.steps ++ other.steps := by
  cases isEmpty : path.text.isEmpty with
  | true =>
      rw [eq_of_isEmpty isEmpty, join_empty]
      rfl
  | false =>
      obtain ⟨start, rest, -, trivial, alone, together⟩ := exists_segments_join relative isEmpty
      rw [steps, steps, steps, together, alone, List.filterMap_append, List.filterMap_append, trivial,
        List.append_nil]

/-- A joined path starts where the one path starts. -/
theorem leading?_join {path other : Path} (relative : other.isAbsolute = false)
    (notEmpty : path.text.isEmpty = false) : (path.join other).leading? = path.leading? := by
  obtain ⟨start, rest, isMore, -, alone, together⟩ := exists_segments_join relative notEmpty
  rw [leading?, leading?, isAbsolute_join relative, alone, together,
    List.head?_append_of_ne_nil _ isMore, List.head?_append_of_ne_nil _ isMore]

/-- The components of a path stay when another one is joined to it. -/
theorem components_prefix_join (path : Path) {other : Path} (relative : other.isAbsolute = false) :
    path.components <+: (path.join other).components := by
  cases isEmpty : path.text.isEmpty with
  | true =>
      rw [eq_of_isEmpty isEmpty]
      exact List.nil_prefix
  | false =>
      rw [components_eq_steps, components_eq_steps, leading?_join relative isEmpty,
        steps_join relative, ← List.append_assoc]
      exact List.prefix_append _ _

/-- The path is absolute, or starts with the components of another one. -/
def IsFrom (path base : Path) : Prop :=
  path.isAbsolute = true ∨ base.components <+: path.components

theorem isFrom_join (base other : Path) : (base.join other).IsFrom base := by
  cases absolute : other.isAbsolute with
  | true => exact .inl (by rw [join, if_pos absolute, absolute])
  | false => exact .inr (components_prefix_join base absolute)

theorem IsFrom.join {base path : Path} (isFrom : path.IsFrom base) (other : Path) :
    (path.join other).IsFrom base := by
  cases absolute : other.isAbsolute with
  | true => exact .inl (by rw [Path.join, if_pos absolute, absolute])
  | false =>
      rcases isFrom with isAbsolute | isBelow
      · exact .inl ((isAbsolute_join absolute).trans isAbsolute)
      · exact .inr (isBelow.trans (components_prefix_join path absolute))

end Path

end TemplateMarkup
