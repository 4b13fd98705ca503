import Mathlib.Data.List.Infix
import TemplateMarkup.Document.Basic
import TemplateMarkup.Proofs.Document.Lookup

/-!
# Ledgers

What a run collects goes into lists that only grow at their ends: the names of the buckets, the
scripts and the style sheets of each bucket, the imports, and the names of the inline components.  A
ledger is these lists, and it is what its entries have made of an empty one.  So the buckets are a
stable grouping of the scripts and style sheets entered, and what is under the name of a component is
what its latest entry has put there.
-/

namespace TemplateMarkup

theorem NameMap.names_insert_of_mem {α : Type} {map : NameMap α} {name : String} (value : α)
    (present : name ∈ map.names) : (map.insert name value).names = map.names := by
  have present : ¬ name ∉ map.entries.map Prod.fst := not_not_intro present
  simp only [names, insert, dif_neg present]
  exact map_fst_replaceIn map.entries name value

theorem NameMap.names_insert_of_not_mem {α : Type} {map : NameMap α} {name : String} (value : α)
    (absent : name ∉ map.names) : (map.insert name value).names = map.names ++ [name] := by
  have absent : name ∉ map.entries.map Prod.fst := absent
  simp only [names, insert, dif_pos absent, List.map_append]
  rfl

theorem NameMap.names_prefix_insert {α : Type} (map : NameMap α) (name : String) (value : α) :
    map.names <+: (map.insert name value).names := by
  by_cases present : name ∈ map.names
  · rw [names_insert_of_mem value present]
  · rw [names_insert_of_not_mem value present]
    exact List.prefix_append _ _

/-- A map is known by its names and by what is found under them. -/
theorem NameMap.entries_eq_map_names {α : Type} (map : NameMap α) {valueOf : String → α}
    (found : ∀ name ∈ map.names, map.find? name = some (valueOf name)) :
    map.entries = map.names.map fun name => (name, valueOf name) := by
  rw [names, List.map_map]
  refine (List.map_id _).symm.trans (List.map_congr_left fun entry member => ?_)
  have isFound := find?_eq_some_iff.mpr member
  rw [found entry.1 (List.mem_map_of_mem member)] at isFound
  exact Prod.ext rfl (Option.some.inj isFound).symm

/-- If there is a value under every name, none is dropped. -/
theorem NameMap.entries_eq_map_some {α : Type} {map : NameMap (Option α)}
    (valued : ∀ name, (name, none) ∉ map.entries) :
    map.entries = (map.filterMap id).entries.map fun entry => (entry.1, some entry.2) := by
  have kept (entries : List (String × Option α)) (valued : ∀ name, (name, none) ∉ entries) :
      entries = (filterEntries id entries).map fun entry => (entry.1, some entry.2) := by
    induction entries with
    | nil => rfl
    | cons entry rest ih =>
        obtain ⟨name, _ | value⟩ := entry
        · exact absurd List.mem_cons_self (valued name)
        · exact congrArg (_ :: ·) (ih fun other member => valued other (.tail _ member))
  exact kept map.entries valued

/-- Entries under the same distinct names are the same if each of the first is one of the second. -/
theorem NameMap.entries_eq_of_names {α : Type} {first second : List (String × α)}
    (names : first.map Prod.fst = second.map Prod.fst) (distinct : (second.map Prod.fst).Nodup)
    (included : ∀ entry ∈ first, entry ∈ second) : first = second := by
  induction first generalizing second with
  | nil => exact (List.map_eq_nil_iff.mp names.symm).symm
  | cons entry rest ih =>
      cases second with
      | nil => cases names
      | cons entry' rest' =>
          obtain ⟨sameName, names⟩ := List.cons.inj names
          obtain ⟨notLater, distinct⟩ := List.nodup_cons.mp distinct
          have isLater {other : String × α} (member : other ∈ entry' :: rest')
              (different : other.1 ≠ entry'.1) : other ∈ rest' :=
            List.mem_of_ne_of_mem (fun same => different (congrArg Prod.fst same)) member
          have sameHead : entry = entry' := by
            refine (List.mem_cons.mp (included entry List.mem_cons_self)).resolve_right fun later => ?_
            exact notLater (sameName ▸ List.mem_map_of_mem later)
          rw [sameHead, ih names distinct fun other member => ?_]
          refine isLater (included other (.tail _ member)) fun same => notLater ?_
          rw [← same, ← names]
          exact List.mem_map_of_mem member

/-- What goes into a bucket. -/
inductive Asset where
  | script (script : Script)
  | style (style : Style)
  deriving DecidableEq, Repr

namespace Asset

def script? : Asset → Option Script
  | .script added => some added
  | .style _ => none

def style? : Asset → Option Style
  | .script _ => none
  | .style added => some added

end Asset

namespace Bucket

def add (bucket : Bucket) : Asset → Bucket
  | .script added => { bucket with scripts := bucket.scripts ++ [added] }
  | .style added => { bucket with styles := bucket.styles ++ [added] }

/-- The scripts and the style sheets of a list, each kind in its order. -/
def ofAssets (assets : List Asset) : Bucket :=
  ⟨assets.filterMap Asset.script?, assets.filterMap Asset.style?⟩

theorem ofAssets_append_singleton (assets : List Asset) (asset : Asset) :
    ofAssets (assets ++ [asset]) = (ofAssets assets).add asset := by
  cases asset with
  | script added => simp [ofAssets, add, Asset.script?, Asset.style?]
  | style added => simp [ofAssets, add, Asset.script?, Asset.style?]

theorem prefix_add (bucket : Bucket) (asset : Asset) :
    bucket.scripts <+: (bucket.add asset).scripts ∧ bucket.styles <+: (bucket.add asset).styles := by
  cases asset with
  | script added => exact ⟨List.prefix_append _ _, List.prefix_rfl⟩
  | style added => exact ⟨List.prefix_rfl, List.prefix_append _ _⟩

end Bucket

/-- What is in the bucket of a name.  A bucket that there is not is an empty one. -/
def NameMap.gathered (buckets : NameMap Bucket) (name : String) : Bucket :=
  (buckets.find? name).getD .empty

theorem NameMap.gathered_update (buckets : NameMap Bucket) (bucket name : String)
    (change : Bucket → Bucket) : (buckets.update bucket .empty change).gathered name =
      if name = bucket then change (buckets.gathered name) else buckets.gathered name := by
  unfold update gathered
  split
  · next same =>
      rw [same, find?_insert_self]
      rfl
  · next different => rw [find?_insert_of_ne _ _ different]

/-- The assets of a name, in their order. -/
def assetsOf (name : String) (collected : List (String × Asset)) : List Asset :=
  (collected.filter (·.1 == name)).map Prod.snd

/-- One bucket for each name, in the order of the first asset of each name. -/
def stableGrouping (collected : List (String × Asset)) : List (String × Bucket) :=
  (collected.map Prod.fst).eraseDups.map fun name => (name, .ofAssets (assetsOf name collected))

theorem mem_of_mem_assetsOf {name : String} {asset : Asset} {collected : List (String × Asset)}
    (member : asset ∈ assetsOf name collected) : (name, asset) ∈ collected := by
  obtain ⟨⟨other, _⟩, isOf, rfl⟩ := List.mem_map.mp member
  obtain ⟨isCollected, same⟩ := List.mem_filter.mp isOf
  exact beq_iff_eq.mp same ▸ isCollected

/-- What is in a bucket has been collected under its name. -/
theorem mem_of_mem_stableGrouping {name : String} {bucket : Bucket}
    {collected : List (String × Asset)} (member : (name, bucket) ∈ stableGrouping collected) :
    (∀ script ∈ bucket.scripts, (name, .script script) ∈ collected) ∧
      ∀ style ∈ bucket.styles, (name, .style style) ∈ collected := by
  obtain ⟨_, -, same⟩ := List.mem_map.mp member
  cases same
  refine ⟨fun script isScript => ?_, fun style isStyle => ?_⟩
  · obtain ⟨asset | asset, isAsset, same⟩ := List.mem_filterMap.mp isScript <;> cases same
    exact mem_of_mem_assetsOf isAsset
  · obtain ⟨asset | asset, isAsset, same⟩ := List.mem_filterMap.mp isStyle <;> cases same
    exact mem_of_mem_assetsOf isAsset

theorem eraseDups_append_singleton {α : Type} [BEq α] [LawfulBEq α] (values : List α) (value : α) :
    (values ++ [value]).eraseDups =
      if values.contains value then values.eraseDups else values.eraseDups ++ [value] := by
  rw [List.eraseDups_append]
  split
  · next present =>
      have nothing : [value].removeAll values = [] := by
        simpa [List.removeAll] using List.contains_iff_mem.mp present
      rw [nothing]
      exact List.append_nil _
  · next absent =>
      have kept : [value].removeAll values = [value] := by
        simpa [List.removeAll] using fun isOld => absent (List.contains_iff_mem.mpr isOld)
      rw [kept]
      rfl

/-- What has been collected and declared. -/
structure Ledger where
  buckets : NameMap Bucket
  imports : List ComponentImport
  /-- The inline components.  One that is still open has no value yet. -/
  components : NameMap (Option Component)

namespace Ledger

/-- One thing written into a ledger. -/
inductive Entry where
  | asset (bucket : String) (asset : Asset)
  | imported (imported : ComponentImport)
  /-- The tag of a component has been read. -/
  | declared (name : String) (tag : Tag)
  /-- The scope of a component has been closed. -/
  | completed (name : String) (component : Component)

namespace Entry

def asset? : Entry → Option (String × Asset)
  | .asset bucket added => some (bucket, added)
  | _ => none

def import? : Entry → Option ComponentImport
  | .imported added => some added
  | _ => none

def declared? : Entry → Option (String × Tag)
  | .declared name tag => some (name, tag)
  | _ => none

/-- What an entry puts under the name of a component. -/
def value? : Entry → Option (String × Option Component)
  | .declared name _ => some (name, none)
  | .completed name component => some (name, some component)
  | _ => none

/-- The entry declares or completes the component of a name. -/
def isAbout (name : String) (entry : Entry) : Bool :=
  entry.value?.any (·.1 == name)

@[simp]
theorem isAbout_declared (name other : String) (tag : Tag) :
    (declared other tag).isAbout name = (other == name) :=
  rfl

@[simp]
theorem isAbout_completed (name other : String) (component : Component) :
    (completed other component).isAbout name = (other == name) :=
  rfl

theorem isAbout_of_value? {entry : Entry} (notComponent : entry.value? = none) (name : String) :
    entry.isAbout name = false := by
  rw [isAbout, notComponent]
  rfl

end Entry

theorem filter_isAbout_append {name : String} {entry : Entry} (entries : List Entry)
    (isOther : entry.isAbout name = false) :
    (entries ++ [entry]).filter (·.isAbout name) = entries.filter (·.isAbout name) := by
  rw [List.filter_append, List.filter_cons_of_neg (by simp [isOther]), List.filter_nil,
    List.append_nil]

def empty : Ledger := ⟨.empty, [], .empty⟩

def enter (ledger : Ledger) : Entry → Ledger
  | .asset bucket added =>
      { ledger with buckets := ledger.buckets.update bucket .empty (·.add added) }
  | .imported added => { ledger with imports := ledger.imports ++ [added] }
  | .declared name _ => { ledger with components := ledger.components.insert name none }
  | .completed name component =>
      { ledger with components := ledger.components.insert name (some component) }

def ofEntries (entries : List Entry) : Ledger := entries.foldl enter empty

variable {entries : List Entry} {entry : Entry}

theorem ofEntries_append_singleton (entries : List Entry) (entry : Entry) :
    ofEntries (entries ++ [entry]) = (ofEntries entries).enter entry :=
  List.foldl_append

theorem imports_ofEntries (entries : List Entry) :
    (ofEntries entries).imports = entries.filterMap Entry.import? := by
  induction entries using List.reverseRecOn with
  | nil => rfl
  | append_singleton entries entry ih =>
      rw [ofEntries_append_singleton, List.filterMap_append, ← ih]
      cases entry with
      | imported imported => rfl
      | _ => exact (List.append_nil _).symm

/-- The names of the buckets stand in the order of their first entries. -/
theorem names_buckets_ofEntries (entries : List Entry) : (ofEntries entries).buckets.names =
    ((entries.filterMap Entry.asset?).map Prod.fst).eraseDups := by
  induction entries using List.reverseRecOn with
  | nil => rfl
  | append_singleton entries entry ih =>
      rw [ofEntries_append_singleton, List.filterMap_append, List.map_append]
      cases entry with
      | asset bucket asset =>
          show (NameMap.insert _ _ _).names = (_ ++ [bucket]).eraseDups
          rw [eraseDups_append_singleton, ← ih]
          by_cases present : bucket ∈ (ofEntries entries).buckets.names
          · rw [NameMap.names_insert_of_mem _ present, if_pos]
            rw [ih, List.mem_eraseDups] at present
            exact List.contains_iff_mem.mpr present
          · rw [NameMap.names_insert_of_not_mem _ present, if_neg]
            rw [ih, List.mem_eraseDups] at present
            exact fun isOld => present (List.contains_iff_mem.mp isOld)
      | _ =>
          refine ih.trans (congrArg List.eraseDups ?_)
          exact (List.append_nil _).symm

theorem gathered_buckets_ofEntries (entries : List Entry) (name : String) :
    (ofEntries entries).buckets.gathered name =
      .ofAssets (assetsOf name (entries.filterMap Entry.asset?)) := by
  induction entries using List.reverseRecOn with
  | nil => rfl
  | append_singleton entries entry ih =>
      rw [ofEntries_append_singleton, List.filterMap_append, assetsOf, List.filter_append,
        List.map_append]
      cases entry with
      | asset bucket asset =>
          refine (NameMap.gathered_update _ _ _ _).trans ?_
          by_cases same : name = bucket
          · subst same
            rw [if_pos rfl, ih, ← Bucket.ofAssets_append_singleton]
            simp [Entry.asset?, assetsOf]
          · rw [if_neg same, ih]
            simp [Entry.asset?, assetsOf, Ne.symm same]
      | _ =>
          refine ih.trans (congrArg Bucket.ofAssets ?_)
          exact (List.append_nil _).symm

/-- The buckets are a stable grouping of what has been entered. -/
theorem buckets_ofEntries (entries : List Entry) :
    (ofEntries entries).buckets.entries = stableGrouping (entries.filterMap Entry.asset?) := by
  rw [stableGrouping, ← names_buckets_ofEntries]
  refine NameMap.entries_eq_map_names _ fun name present => ?_
  obtain ⟨bucket, found⟩ := NameMap.exists_find?_of_mem present
  rw [← gathered_buckets_ofEntries, NameMap.gathered, found]
  rfl

/-- Under the name of a component is what the latest entry about it has put there. -/
theorem find?_components_ofEntries (entries : List Entry) (name : String) :
    (ofEntries entries).components.find? name =
      ((entries.filter (·.isAbout name)).getLast?.bind Entry.value?).map Prod.snd := by
  induction entries using List.reverseRecOn with
  | nil => rfl
  | append_singleton entries entry ih =>
      rw [ofEntries_append_singleton]
      have inserted {other : String} {value : Option Component}
          (puts : entry.value? = some (other, value)) :
          ((ofEntries entries).components.insert other value).find? name =
            (((entries ++ [entry]).filter (·.isAbout name)).getLast?.bind Entry.value?).map
              Prod.snd := by
        by_cases same : name = other
        · subst same
          have isAbout : entry.isAbout name = true := by simp [Entry.isAbout, puts]
          simp [NameMap.find?_insert_self, List.filter_append, isAbout, puts]
        · have isOther : entry.isAbout name = false := by
            simp [Entry.isAbout, puts, Ne.symm same]
          rw [NameMap.find?_insert_of_ne _ _ same, ih, filter_isAbout_append entries isOther]
      cases entry with
      | declared other tag => exact inserted rfl
      | completed other component => exact inserted rfl
      | _ =>
          rw [filter_isAbout_append entries (Entry.isAbout_of_value? rfl name)]
          exact ih

/-- Each list of the later ledger begins with that of the earlier one. -/
structure Extends (later earlier : Ledger) : Prop where
  bucketNames : earlier.buckets.names <+: later.buckets.names
  scripts : ∀ name, (earlier.buckets.gathered name).scripts <+: (later.buckets.gathered name).scripts
  styles : ∀ name, (earlier.buckets.gathered name).styles <+: (later.buckets.gathered name).styles
  imports : earlier.imports <+: later.imports
  componentNames : earlier.components.names <+: later.components.names

theorem Extends.refl (ledger : Ledger) : ledger.Extends ledger where
  bucketNames := List.prefix_rfl
  scripts _ := List.prefix_rfl
  styles _ := List.prefix_rfl
  imports := List.prefix_rfl
  componentNames := List.prefix_rfl

/-- Every list of a ledger only grows at its end. -/
theorem extends_enter (ledger : Ledger) (entry : Entry) : (ledger.enter entry).Extends ledger := by
  have unchanged := Extends.refl ledger
  cases entry with
  | asset bucket asset =>
      have grown (name : String) : (ledger.enter (.asset bucket asset)).buckets.gathered name =
          if name = bucket then (ledger.buckets.gathered name).add asset
          else ledger.buckets.gathered name :=
        NameMap.gathered_update _ _ _ _
      refine { unchanged with
        bucketNames := NameMap.names_prefix_insert _ _ _
        scripts := fun name => ?_
        styles := fun name => ?_ }
      · rw [grown]
        split
        · exact (Bucket.prefix_add _ asset).1
        · exact List.prefix_rfl
      · rw [grown]
        split
        · exact (Bucket.prefix_add _ asset).2
        · exact List.prefix_rfl
  | imported imported =>
      exact { unchanged with imports := List.prefix_append _ _ }
  | declared name tag =>
      exact { unchanged with componentNames := NameMap.names_prefix_insert _ _ _ }
  | completed name component =>
      exact { unchanged with componentNames := NameMap.names_prefix_insert _ _ _ }

/-- The entry of a component that is declared and then completed changes once. -/
theorem exists_changes {name : String} {tag : Tag} {component : Component}
    (lifetime : entries.filter (·.isAbout name) = [.declared name tag, .completed name component]) :
    ∃ declared completed, declared < completed ∧
      entries[declared]? = some (.declared name tag) ∧
      entries[completed]? = some (.completed name component) ∧
      ∀ count, (ofEntries (entries.take count)).components.find? name =
        if count ≤ declared then none else if count ≤ completed then some none
        else some (some component) := by
  obtain ⟨before, rest, rfl, noneBefore, isDeclared, lifetime⟩ :=
    List.filter_eq_cons_iff.mp lifetime
  obtain ⟨between, after, rfl, noneBetween, isCompleted, noneAfter⟩ :=
    List.filter_eq_cons_iff.mp lifetime
  refine ⟨before.length, before.length + (between.length + 1), by omega, by simp, ?_, fun count => ?_⟩
  · rw [List.getElem?_append_right (by omega), Nat.add_sub_cancel_left, List.getElem?_cons_succ]
    simp
  · rw [find?_components_ofEntries]
    have nothing {others : List Entry} (isOther : ∀ entry ∈ others, ¬entry.isAbout name = true)
        (count : Nat) : (others.take count).filter (·.isAbout name) = [] :=
      List.filter_eq_nil_iff.mpr fun entry member => isOther entry (List.mem_of_mem_take member)
    have noneAfter := List.filter_eq_nil_iff.mp noneAfter
    rw [List.take_append, List.filter_append, nothing noneBefore, List.nil_append]
    by_cases isEarly : count ≤ before.length
    · rw [if_pos isEarly, Nat.sub_eq_zero_of_le isEarly]
      rfl
    · obtain ⟨more, rfl⟩ : ∃ more, count = before.length + (more + 1) :=
        ⟨count - before.length - 1, by omega⟩
      rw [if_neg isEarly, Nat.add_sub_cancel_left, List.take_succ_cons,
        List.filter_cons_of_pos isDeclared, List.take_append, List.filter_append,
        nothing noneBetween, List.nil_append]
      by_cases isOpen : more ≤ between.length
      · rw [if_pos (by omega), Nat.sub_eq_zero_of_le isOpen]
        rfl
      · obtain ⟨rest, rfl⟩ : ∃ rest, more = between.length + (rest + 1) :=
          ⟨more - between.length - 1, by omega⟩
        rw [if_neg (by omega), Nat.add_sub_cancel_left, List.take_succ_cons,
          List.filter_cons_of_pos isCompleted, nothing noneAfter]
        rfl

end Ledger

end TemplateMarkup
