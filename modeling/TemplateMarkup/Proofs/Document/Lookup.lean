import Mathlib.Data.List.Nodup
import TemplateMarkup.Document.NameMap

/-!
# Looking up names

What is found under a name after a value has been put under it or under another name, and after the
values have been filtered.
-/

namespace TemplateMarkup

namespace NameMap

variable {α β : Type}

theorem contains_iff {map : NameMap α} {name : String} :
    map.contains name = true ↔ name ∈ map.names :=
  List.contains_iff_mem

theorem lookup_cons_of_ne {entries : List (String × α)} {name other : String} {value : α}
    (different : name ≠ other) : ((other, value) :: entries).lookup name = entries.lookup name := by
  rw [List.lookup_cons, beq_false_of_ne different]

theorem find?_eq_none_iff {map : NameMap α} {name : String} :
    map.find? name = none ↔ name ∉ map.names := by
  unfold find? names
  rw [List.lookup_eq_none_iff, List.mem_map]
  constructor
  · rintro absent ⟨entry, member, rfl⟩
    simpa using absent entry member
  · intro absent entry member
    exact bne_iff_ne.mpr fun same => absent ⟨entry, member, same.symm⟩

theorem mem_names_of_find? {map : NameMap α} {name : String} {value : α}
    (found : map.find? name = some value) : name ∈ map.names := by
  by_contra absent
  rw [find?_eq_none_iff.mpr absent] at found
  cases found

theorem exists_find?_of_mem {map : NameMap α} {name : String} (present : name ∈ map.names) :
    ∃ value, map.find? name = some value := by
  cases found : map.find? name with
  | some value => exact ⟨value, rfl⟩
  | none => exact absurd present (find?_eq_none_iff.mp found)

theorem eq_of_mem_entries {map : NameMap α} {name : String} {value value' : α}
    (member : (name, value) ∈ map.entries) (member' : (name, value') ∈ map.entries) :
    value = value' :=
  congrArg Prod.snd (List.inj_on_of_nodup_map map.distinct member member' rfl)

theorem find?_eq_some_iff {map : NameMap α} {name : String} {value : α} :
    map.find? name = some value ↔ (name, value) ∈ map.entries := by
  have isEntry {value : α} (found : map.find? name = some value) : (name, value) ∈ map.entries := by
    obtain ⟨before, after, split, -⟩ := List.lookup_eq_some_iff.mp found
    rw [split]
    exact List.mem_append_right _ List.mem_cons_self
  refine ⟨isEntry, fun member => ?_⟩
  obtain ⟨stored, found⟩ := exists_find?_of_mem (List.mem_map_of_mem member)
  rw [found, eq_of_mem_entries (isEntry found) member]

theorem mem_names_insert {map : NameMap α} {name other : String} {value : α} :
    other ∈ (map.insert name value).names ↔ other = name ∨ other ∈ map.names := by
  by_cases present : name ∈ map.names
  · have same : (map.insert name value).names = map.names := by
      have present : ¬ name ∉ map.entries.map Prod.fst := not_not_intro present
      simp only [insert, dif_neg present]
      exact map_fst_replaceIn map.entries name value
    rw [same]
    exact ⟨.inr, fun either => either.elim (fun equal => equal ▸ present) id⟩
  · have absent : name ∉ map.entries.map Prod.fst := present
    simp only [insert, dif_pos absent]
    simp [names, or_comm]

theorem lookup_replaceIn_self {entries : List (String × α)} {name : String} {value : α}
    (present : name ∈ entries.map Prod.fst) :
    (replaceIn entries name value).lookup name = some value := by
  induction entries with
  | nil => cases present
  | cons entry rest ih =>
      obtain ⟨first, stored⟩ := entry
      rw [replaceIn, List.map_cons]
      by_cases same : first = name
      · rw [if_pos same]
        exact List.lookup_cons_self
      · have later : name ∈ rest.map Prod.fst :=
          (List.mem_cons.mp present).resolve_left (Ne.symm same)
        rw [if_neg same, lookup_cons_of_ne (Ne.symm same)]
        exact ih later

theorem lookup_replaceIn_of_ne {entries : List (String × α)} {name other : String} {value : α}
    (different : other ≠ name) :
    (replaceIn entries name value).lookup other = entries.lookup other := by
  induction entries with
  | nil => rfl
  | cons entry rest ih =>
      obtain ⟨first, stored⟩ := entry
      rw [replaceIn, List.map_cons]
      by_cases same : first = name
      · subst same
        rw [if_pos rfl, lookup_cons_of_ne different, lookup_cons_of_ne different]
        exact ih
      · rw [if_neg same, List.lookup_cons, List.lookup_cons]
        cases other == first with
        | true => rfl
        | false => exact ih

theorem find?_insert_self (map : NameMap α) (name : String) (value : α) :
    (map.insert name value).find? name = some value := by
  unfold find? insert
  split
  · next absent =>
      have none : map.entries.lookup name = none := find?_eq_none_iff.mpr absent
      rw [List.lookup_append, none, List.lookup_cons_self]
      rfl
  · next present => exact lookup_replaceIn_self (not_not.mp present)

theorem find?_insert_of_ne (map : NameMap α) {name other : String} (value : α)
    (different : other ≠ name) : (map.insert name value).find? other = map.find? other := by
  unfold find? insert
  split
  · rw [List.lookup_append, lookup_cons_of_ne different]
    exact Option.or_none
  · exact lookup_replaceIn_of_ne different

theorem replaceIn_of_not_mem {entries : List (String × α)} {name : String} (value : α)
    (absent : name ∉ entries.map Prod.fst) : replaceIn entries name value = entries := by
  refine (List.map_congr_left fun entry member => ?_).trans (List.map_id entries)
  have different : entry.1 ≠ name := fun same => absent (same ▸ List.mem_map_of_mem member)
  rw [if_neg different, id]

/-- Up to their order, the other entries stay as they are when a value is put under a name. -/
theorem exists_perm_insert (map : NameMap α) (name : String) : ∃ others,
    map.entries.Perm ((map.find? name).toList.map (name, ·) ++ others) ∧
      ∀ value, (map.insert name value).entries.Perm ((name, value) :: others) := by
  cases found : map.find? name with
  | none =>
      have absent : name ∉ map.entries.map Prod.fst := find?_eq_none_iff.mp found
      refine ⟨map.entries, .refl _, fun value => ?_⟩
      simp only [insert, dif_pos absent]
      exact List.perm_append_singleton _ _
  | some stored =>
      have present : ¬ name ∉ map.entries.map Prod.fst :=
        not_not_intro (mem_names_of_find? found)
      obtain ⟨before, after, split, -⟩ := List.lookup_eq_some_iff.mp found
      have distinct := map.distinct
      rw [split, List.map_append, List.map_cons, List.nodup_middle, List.nodup_cons] at distinct
      have notElsewhere : name ∉ (before ++ after).map Prod.fst := List.map_append ▸ distinct.1
      refine ⟨before ++ after, split ▸ List.perm_middle, fun value => ?_⟩
      have replaced : replaceIn map.entries name value =
          replaceIn before name value ++ (name, value) :: replaceIn after name value := by
        rw [split, replaceIn, List.map_append, List.map_cons, if_pos rfl]
        rfl
      have kept : replaceIn before name value ++ replaceIn after name value = before ++ after := by
        rw [replaceIn, replaceIn, ← List.map_append]
        exact replaceIn_of_not_mem value notElsewhere
      simp only [insert, dif_neg present, replaced]
      exact kept ▸ List.perm_middle

theorem lookup_filterEntries {entries : List (String × α)} (distinct : (entries.map Prod.fst).Nodup)
    (keep : α → Option β) (name : String) :
    (filterEntries keep entries).lookup name = (entries.lookup name).bind keep := by
  induction entries with
  | nil => rfl
  | cons entry rest ih =>
      obtain ⟨first, value⟩ := entry
      obtain ⟨notLater, distinctRest⟩ := List.nodup_cons.mp distinct
      have ih := ih distinctRest
      by_cases same : name = first
      · subst same
        have none : rest.lookup name = none :=
          (find?_eq_none_iff : NameMap.find? ⟨rest, distinctRest⟩ name = none ↔ _).mpr notLater
        rw [none] at ih
        rw [filterEntries, List.lookup_cons_self, Option.bind_some]
        -- The names are distinct, so nothing else is found under a name that is dropped.
        cases keep value with
        | none => exact ih
        | some kept => exact List.lookup_cons_self
      · rw [filterEntries, lookup_cons_of_ne same]
        cases keep value with
        | none => exact ih
        | some kept => exact (lookup_cons_of_ne same).trans ih

theorem find?_filterMap (map : NameMap α) (keep : α → Option β) (name : String) :
    (map.filterMap keep).find? name = (map.find? name).bind keep :=
  lookup_filterEntries map.distinct keep name

end NameMap

end TemplateMarkup
