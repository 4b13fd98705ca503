import Mathlib.Data.List.Sort
import TemplateMarkup.Proofs.Document.Lookup
import TemplateMarkup.Proofs.Json.Nesting

/-!
# Values with sorted members

Sorting the members of all objects in a value only rearranges them.  So the same is found under each
name, if the names are distinct, and the value nests as deep as before and is as sound.
-/

namespace TemplateMarkup

/-- What is found under a name does not depend on the order of the entries. -/
theorem lookup_eq_of_perm {α : Type} {first second : List (String × α)} (perm : first.Perm second)
    (distinct : (first.map Prod.fst).Nodup) (name : String) :
    first.lookup name = second.lookup name := by
  let earlier : NameMap α := ⟨first, distinct⟩
  let later : NameMap α := ⟨second, (perm.map Prod.fst).nodup_iff.mp distinct⟩
  have same : earlier.find? name = later.find? name := by
    ext value
    rw [NameMap.find?_eq_some_iff, NameMap.find?_eq_some_iff]
    exact perm.mem_iff
  exact same

namespace Json

/-- A member whose value has been sorted. -/
def sortMember (member : String × Json) : String × Json := (member.1, member.2.sorted)

theorem insertSorted_eq_orderedInsert (member : String × Json) (members : List (String × Json)) :
    insertSorted member members =
      members.orderedInsert (fun first second => first.1 < second.1) member := by
  induction members with
  | nil => rfl
  | cons first rest ih => rw [insertSorted, List.orderedInsert_cons, ih]

theorem sortedMembers_eq_insertionSort (members : List (String × Json)) :
    sortedMembers members =
      (members.map sortMember).insertionSort fun first second => first.1 < second.1 := by
  induction members with
  | nil => rfl
  | cons member rest ih =>
      rw [sortedMembers, insertSorted_eq_orderedInsert, ih, List.map_cons, List.insertionSort_cons]
      rfl

theorem perm_sortedMembers (members : List (String × Json)) :
    (sortedMembers members).Perm (members.map sortMember) := by
  rw [sortedMembers_eq_insertionSort]
  exact List.perm_insertionSort _ _

theorem sortedItems_eq_map (items : List Json) : sortedItems items = items.map sorted := by
  induction items with
  | nil => rfl
  | cons item rest ih => rw [sortedItems, ih, List.map_cons]

section

variable {members : List (String × Json)}

theorem perm_names_sortedMembers (members : List (String × Json)) :
    ((sortedMembers members).map Prod.fst).Perm (members.map Prod.fst) := by
  have perm := (perm_sortedMembers members).map Prod.fst
  rw [List.map_map] at perm
  exact perm

theorem distinct_sortedMembers (distinct : (members.map Prod.fst).Nodup) :
    ((sortedMembers members).map Prod.fst).Nodup :=
  (perm_names_sortedMembers members).nodup_iff.mpr distinct

/-- Under each name there is what has been there before, sorted. -/
theorem lookup_sortedMembers (distinct : (members.map Prod.fst).Nodup) (name : String) :
    (sortedMembers members).lookup name = (members.lookup name).map sorted := by
  rw [lookup_eq_of_perm (perm_sortedMembers members) (distinct_sortedMembers distinct) name]
  clear distinct
  induction members with
  | nil => rfl
  | cons member rest ih =>
      rw [List.map_cons, sortMember, List.lookup_cons, List.lookup_cons]
      cases name == member.1 with
      | true => rfl
      | false => exact ih

/-- An object that is left out is left out even if it is sorted. -/
theorem map_lookup_objectMember {name : String} (members : List (String × Json)) :
    ((objectMember name members).lookup name).map sorted =
      (objectMember name (sortedMembers members)).lookup name := by
  have empty : (sortedMembers members).isEmpty = members.isEmpty := by
    rw [(perm_sortedMembers members).isEmpty_eq, List.isEmpty_map]
  rw [objectMember, objectMember, empty]
  split
  · rfl
  · rw [List.lookup_cons_self, List.lookup_cons_self, Option.map_some, sorted]

theorem allMembers_sortedMembers {holds : Json → Prop} :
    AllMembers holds (sortedMembers members) ↔
      AllMembers (fun value => holds value.sorted) members := by
  have perm : AllMembers holds (sortedMembers members) ↔
      ∀ member ∈ members.map sortMember, holds member.2 :=
    ⟨fun all member isMember => all member ((perm_sortedMembers members).mem_iff.mpr isMember),
      fun all member isMember => all member ((perm_sortedMembers members).mem_iff.mp isMember)⟩
  rw [perm, List.forall_mem_map]
  rfl

end

/-- Whatever fits in a depth still does if it is sorted. -/
theorem nesting_sorted_le_iff (value : Json) : ∀ depth, value.sorted.nesting ≤ depth ↔
    value.nesting ≤ depth := by
  induction value using Json.induction with
  | null => exact fun _ => Iff.rfl
  | bool value => exact fun _ => Iff.rfl
  | number value => exact fun _ => Iff.rfl
  | string text => exact fun _ => Iff.rfl
  | array items ih =>
      intro depth
      rw [sorted, sortedItems_eq_map]
      cases depth with
      | zero => simp [nesting]
      | succ depth =>
          rw [nesting_array_le_iff, nesting_array_le_iff, List.forall_mem_map]
          exact forall₂_congr fun item member => ih item member depth
  | object members ih =>
      intro depth
      rw [sorted]
      cases depth with
      | zero => simp [nesting]
      | succ depth =>
          rw [nesting_object_le_iff, nesting_object_le_iff, allMembers_sortedMembers]
          exact forall₂_congr fun member isMember => ih member isMember depth

/-- A sorted value is as sound as it has been before. -/
theorem isSound_outline_sorted (value : Json) : ∀ depth,
    value.sorted.outline.isSound depth = value.outline.isSound depth := by
  induction value using Json.induction with
  | null => exact fun _ => rfl
  | bool value => exact fun _ => rfl
  | number value => exact fun _ => rfl
  | string text => exact fun _ => rfl
  | array items ih =>
      intro depth
      have same : Outline.areSound (depth - 1) (outlines (sortedItems items)) =
          Outline.areSound (depth - 1) (outlines items) := by
        rw [Bool.eq_iff_iff, areSound_outlines_iff, areSound_outlines_iff, sortedItems_eq_map,
          List.forall_mem_map]
        exact forall₂_congr fun item member => Eq.congr_left (ih item member _)
      rw [sorted, outline, outline, Outline.isSound, Outline.isSound, same]
  | object members ih =>
      intro depth
      have same : Outline.membersAreSound (depth - 1) (memberOutlines (sortedMembers members)) =
          Outline.membersAreSound (depth - 1) (memberOutlines members) := by
        rw [Bool.eq_iff_iff, membersAreSound_outlines_iff, membersAreSound_outlines_iff,
          allMembers_sortedMembers]
        exact forall₂_congr fun member isMember => Eq.congr_left (ih member isMember _)
      rw [sorted, outline, outline, Outline.isSound, Outline.isSound, same]

end Json

end TemplateMarkup
