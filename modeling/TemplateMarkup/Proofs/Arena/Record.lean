import TemplateMarkup.Proofs.Arena.Heads
import TemplateMarkup.Proofs.Document.Lookup

/-!
# The record of appended nodes

The record of an arena and the scopes of an assembly agree: under the name of each component the
record has the nodes of its scope, or those of its tree once the scope has been closed, in the order
of the tree.  Only the innermost scope gets new nodes, and its name belongs to no other component.
-/

namespace TemplateMarkup

theorem NameMap.mem_entries_insert_iff {α : Type} {map : NameMap α} {name other : String}
    {value value' : α} :
    (other, value') ∈ (map.insert name value).entries ↔
      other = name ∧ value' = value ∨ other ≠ name ∧ (other, value') ∈ map.entries := by
  unfold insert
  split
  · next absent =>
      have isOther (member : (other, value') ∈ map.entries) : other ≠ name := by
        rintro rfl
        exact absent (List.mem_map_of_mem member)
      rw [List.mem_append, List.mem_singleton, Prod.mk.injEq, or_comm]
      exact or_congr_right ⟨fun member => ⟨isOther member, member⟩, And.right⟩
  · next present =>
      have present : name ∈ map.entries.map Prod.fst := not_not.mp present
      obtain ⟨⟨_, stored⟩, isStored, rfl⟩ := List.mem_map.mp present
      refine List.mem_map.trans ?_
      constructor
      · rintro ⟨⟨first, kept⟩, member, changed⟩
        split at changed
        · cases changed
          exact .inl ⟨rfl, rfl⟩
        · next different =>
            cases changed
            exact .inr ⟨different, member⟩
      · rintro (⟨rfl, rfl⟩ | ⟨different, member⟩)
        · exact ⟨_, isStored, if_pos rfl⟩
        · exact ⟨_, member, if_neg different⟩

namespace Arena

section

variable {appended : List (Option String × NodeHead)} {heads : List NodeHead}
variable {label other : Option String}

theorem nodesOf_append_self :
    nodesOf (appended ++ heads.map (label, ·)) label = nodesOf appended label ++ heads := by
  simp [nodesOf, List.filter_append, List.filter_map, Function.comp_def]

theorem nodesOf_append_of_ne (different : other ≠ label) :
    nodesOf (appended ++ heads.map (label, ·)) other = nodesOf appended other := by
  simp [nodesOf, List.filter_append, List.filter_map, Function.comp_def, different.symm]

/-- The root of the file's own markup has an empty name, and that of an inline component declares
it. -/
def IsRootTag (start : Position) : Option String → Tag → Prop
  | none, tag => tag = .bare "" start
  | some name, tag => tag.componentName? = some name

/-- Some nodes are the root of a component and what the record has under its name. -/
def Tells (start : Position) (appended : List (Option String × NodeHead)) (label : Option String)
    (heads : List NodeHead) : Prop :=
  ∃ tag, IsRootTag start label tag ∧ heads = .element tag :: nodesOf appended label

variable {start : Position} {before : List NodeHead}

theorem Tells.append (tells : Tells start appended label before) (heads : List NodeHead) :
    Tells start (appended ++ heads.map (label, ·)) label (before ++ heads) := by
  obtain ⟨tag, isRoot, rfl⟩ := tells
  exact ⟨tag, isRoot, by rw [nodesOf_append_self, List.cons_append]⟩

theorem Tells.of_ne (tells : Tells start appended other before) (different : other ≠ label) :
    Tells start (appended ++ heads.map (label, ·)) other before := by
  obtain ⟨tag, isRoot, rfl⟩ := tells
  exact ⟨tag, isRoot, by rw [nodesOf_append_of_ne different]⟩

end

/-- The record has the nodes of all components.  The open components are those without a value. -/
structure Records (start : Position) (appended : List (Option String × NodeHead))
    (assembly : Assembly) : Prop where
  main : Tells start appended none assembly.main.heads
  inline : ∀ opened ∈ assembly.inline, Tells start appended (some opened.1) opened.2.heads
  closed : ∀ {name component}, (name, some component) ∈ assembly.components.entries →
    Tells start appended (some name) component.root.toNode.heads
  declared : ∀ entry ∈ appended, ∀ name ∈ entry.1, name ∈ assembly.components.names
  distinct : (assembly.inline.map Prod.fst).Nodup
  isOpen : ∀ name, (name, none) ∈ assembly.components.entries ↔ name ∈ assembly.inline.map Prod.fst

namespace Records

variable {start : Position} {appended : List (Option String × NodeHead)} {assembly : Assembly}

theorem initial (start : Position) : Records start [] (.initial start) where
  main := ⟨.bare "" start, rfl, rfl⟩
  inline := nofun
  closed := nofun
  declared := nofun
  distinct := List.nodup_nil
  isOpen _ := ⟨nofun, nofun⟩

theorem collect (records : Records start appended assembly) (buckets : NameMap Bucket)
    (imports : List ComponentImport) : Records start appended { assembly with buckets, imports } :=
  { records with }

/-- New nodes of the innermost scope are recorded under its name. -/
theorem modifyCurrent (records : Records start appended assembly)
    {change : TemplateMarkup.Scope → TemplateMarkup.Scope} {heads : List NodeHead}
    (grows : (change assembly.current).heads = assembly.current.heads ++ heads) :
    Records start (appended ++ heads.map (assembly.inline.head?.map Prod.fst, ·))
      (assembly.modifyCurrent change) := by
  rcases assembly with ⟨main, inline, components, buckets, imports⟩
  cases inline with
  | nil =>
      refine ⟨?_, nofun, fun member => (records.closed member).of_ne nofun, ?_, records.distinct,
        records.isOpen⟩
      · have grows : (change main).heads = main.heads ++ heads := grows
        show Tells start _ none (change main).heads
        rw [grows]
        exact records.main.append heads
      · intro entry member name isName
        rcases List.mem_append.mp member with member | isNew
        · exact records.declared entry member name isName
        · obtain ⟨head, -, rfl⟩ := List.mem_map.mp isNew
          cases isName
  | cons opened outer =>
      obtain ⟨name, scope⟩ := opened
      obtain ⟨notOuter, -⟩ := List.nodup_cons.mp records.distinct
      have isOpen : (name, none) ∈ components.entries :=
        (records.isOpen name).mpr List.mem_cons_self
      refine ⟨records.main.of_ne nofun, ?_, ?_, ?_, records.distinct, records.isOpen⟩
      · intro opened member
        rcases List.mem_cons.mp member with rfl | isOuter
        · have grows : (change scope).heads = scope.heads ++ heads := grows
          show Tells start _ (some name) (change scope).heads
          rw [grows]
          exact (records.inline _ List.mem_cons_self).append heads
        · have told := records.inline opened (List.mem_cons_of_mem _ isOuter)
          refine told.of_ne fun same => notOuter ?_
          exact List.mem_map.mpr ⟨opened, isOuter, Option.some.inj same⟩
      · intro other component member
        -- A component with a value is not open, so it is not the innermost one.
        refine (records.closed member).of_ne fun same => ?_
        cases same
        cases NameMap.eq_of_mem_entries isOpen member
      · intro entry member other isName
        rcases List.mem_append.mp member with member | isNew
        · exact records.declared entry member other isName
        · obtain ⟨head, -, rfl⟩ := List.mem_map.mp isNew
          cases isName
          exact List.mem_map_of_mem isOpen

/-- A closed component has the nodes of its scope. -/
theorem closeScope (records : Records start appended assembly) :
    Records start appended assembly.closeScope := by
  rcases assembly with ⟨main, inline, components, buckets, imports⟩
  cases inline with
  | nil => exact records
  | cons opened outer =>
      obtain ⟨name, scope⟩ := opened
      obtain ⟨notOuter, distinct⟩ := List.nodup_cons.mp records.distinct
      refine ⟨records.main, fun opened isOuter =>
        records.inline opened (List.mem_cons_of_mem _ isOuter), ?_, ?_, distinct, ?_⟩
      · intro other component member
        rcases NameMap.mem_entries_insert_iff.mp member with ⟨rfl, same⟩ | ⟨-, member⟩
        · cases same
          rw [scope.heads_toComponent]
          exact records.inline _ List.mem_cons_self
        · exact records.closed member
      · intro entry member other isName
        exact NameMap.mem_names_insert.mpr (.inr (records.declared entry member other isName))
      · intro other
        refine NameMap.mem_entries_insert_iff.trans ⟨?_, fun isOuter => .inr ⟨?_, ?_⟩⟩
        · rintro (⟨-, same⟩ | ⟨different, member⟩)
          · cases same
          · exact List.mem_of_ne_of_mem different ((records.isOpen other).mp member)
        · rintro rfl
          exact notOuter isOuter
        · exact (records.isOpen other).mpr (List.mem_cons_of_mem _ isOuter)

theorem closeScopes (records : Records start appended assembly) (count : Nat) :
    Records start appended (Assembly.closeScopes count assembly) := by
  induction count generalizing assembly with
  | zero => exact records
  | succ count ih => exact ih records.closeScope

/-- Nothing has been recorded yet under the name of a new component. -/
theorem declare (records : Records start appended assembly) {name : String} {tag : Tag}
    (isNew : name ∉ assembly.components.names) (declares : tag.componentName? = some name) :
    Records start appended { assembly with
      inline := (name, .ofRoot tag) :: assembly.inline
      components := assembly.components.insert name none } := by
  have notOpen : name ∉ assembly.inline.map Prod.fst := fun isOpen =>
    isNew (List.mem_map_of_mem ((records.isOpen name).mpr isOpen))
  have nothing : nodesOf appended (some name) = [] := by
    rw [nodesOf, List.map_eq_nil_iff, List.filter_eq_nil_iff]
    intro entry member same
    exact isNew (records.declared entry member name (beq_iff_eq.mp same))
  refine ⟨records.main, ?_, ?_, ?_, List.nodup_cons.mpr ⟨notOpen, records.distinct⟩, ?_⟩
  · intro opened member
    rcases List.mem_cons.mp member with rfl | isOuter
    · exact ⟨tag, declares, by rw [nothing]; rfl⟩
    · exact records.inline opened isOuter
  · intro other component member
    rcases NameMap.mem_entries_insert_iff.mp member with ⟨-, same⟩ | ⟨-, member⟩
    · cases same
    · exact records.closed member
  · intro entry member other isName
    exact NameMap.mem_names_insert.mpr (.inr (records.declared entry member other isName))
  · intro other
    refine NameMap.mem_entries_insert_iff.trans ⟨?_, fun isOpen => ?_⟩
    · rintro (⟨rfl, -⟩ | ⟨-, member⟩)
      · exact List.mem_cons_self
      · exact List.mem_cons_of_mem _ ((records.isOpen other).mp member)
    · rcases List.mem_cons.mp isOpen with rfl | isOuter
      · exact .inl ⟨rfl, rfl⟩
      · refine .inr ⟨?_, (records.isOpen other).mpr isOuter⟩
        rintro rfl
        exact notOpen isOuter

end Records

end Arena

end TemplateMarkup
