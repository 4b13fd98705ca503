/-!
# Values under names

A finite map from names to values that remembers the order in which the names first came.  Giving a
present name a new value keeps its place.
-/

namespace TemplateMarkup

/-- Values under distinct names, in the order of the first insertion of each name. -/
structure NameMap (α : Type) where
  entries : List (String × α)
  distinct : (entries.map Prod.fst).Nodup
  deriving DecidableEq, Repr

namespace NameMap

variable {α β : Type}

def empty : NameMap α := ⟨[], List.nodup_nil⟩

instance : Inhabited (NameMap α) := ⟨empty⟩

def isEmpty (map : NameMap α) : Bool := map.entries.isEmpty

def size (map : NameMap α) : Nat := map.entries.length

def names (map : NameMap α) : List String := map.entries.map Prod.fst

def values (map : NameMap α) : List α := map.entries.map Prod.snd

def find? (map : NameMap α) (name : String) : Option α := map.entries.lookup name

def contains (map : NameMap α) (name : String) : Bool := map.names.contains name

/-- Put a value under one name of a list of entries. -/
def replaceIn (entries : List (String × α)) (name : String) (value : α) : List (String × α) :=
  entries.map fun entry => if entry.1 = name then (name, value) else entry

theorem map_fst_replaceIn (entries : List (String × α)) (name : String) (value : α) :
    (replaceIn entries name value).map Prod.fst = entries.map Prod.fst := by
  induction entries with
  | nil => rfl
  | cons entry rest ih =>
      by_cases same : entry.1 = name
      · simpa [replaceIn, same] using ih
      · simpa [replaceIn, same] using ih

/-- Put a value under a name: in its place if the name is present, else at the end. -/
def insert (map : NameMap α) (name : String) (value : α) : NameMap α :=
  if absent : name ∉ map.entries.map Prod.fst then
    { entries := map.entries ++ [(name, value)]
      distinct := by
        rw [List.map_append, List.nodup_append]
        refine ⟨map.distinct, by simp, ?_⟩
        intro present isPresent other isOther equal
        simp only [List.map_cons, List.map_nil, List.mem_singleton] at isOther
        subst isOther
        exact absent (equal ▸ isPresent) }
  else
    { entries := replaceIn map.entries name value
      distinct := by
        rw [map_fst_replaceIn]
        exact map.distinct }

/-- Change the value under a name, starting from the given one if there is none yet. -/
def update (map : NameMap α) (name : String) (initial : α) (change : α → α) : NameMap α :=
  map.insert name (change ((map.find? name).getD initial))

/-- The entries of a list; a repeated name keeps its first place and its last value. -/
def ofList (entries : List (String × α)) : NameMap α :=
  entries.foldl (fun map entry => map.insert entry.1 entry.2) empty

/-- The entries that a partial function has values for. -/
def filterEntries (keep : α → Option β) : List (String × α) → List (String × β)
  | [] => []
  | (name, value) :: rest =>
      match keep value with
      | none => filterEntries keep rest
      | some kept => (name, kept) :: filterEntries keep rest

theorem filterEntries_names_sublist (keep : α → Option β) (entries : List (String × α)) :
    ((filterEntries keep entries).map Prod.fst).Sublist (entries.map Prod.fst) := by
  induction entries with
  | nil => exact List.Sublist.slnil
  | cons entry rest ih =>
      obtain ⟨name, value⟩ := entry
      cases kept : keep value with
      | none => simpa [filterEntries, kept] using ih.cons name
      | some result => simpa [filterEntries, kept] using ih.cons_cons name

/-- Apply a partial function to all values and drop those without a result. -/
def filterMap (map : NameMap α) (keep : α → Option β) : NameMap β where
  entries := filterEntries keep map.entries
  distinct := (filterEntries_names_sublist keep map.entries).nodup map.distinct

end NameMap

end TemplateMarkup
