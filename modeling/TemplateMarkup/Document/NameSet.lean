/-!
# Sets of names

A finite set of names that remembers the order in which they first came.
-/

namespace TemplateMarkup

/-- Distinct names in the order of their first insertion. -/
structure NameSet where
  names : List String
  distinct : names.Nodup
  deriving DecidableEq, Repr

namespace NameSet

def empty : NameSet := ⟨[], List.nodup_nil⟩

instance : Inhabited NameSet := ⟨empty⟩

def isEmpty (set : NameSet) : Bool := set.names.isEmpty

/-- Add a name at the end, unless it is there already. -/
def insert (set : NameSet) (name : String) : NameSet :=
  if absent : name ∉ set.names then
    { names := set.names ++ [name]
      distinct := by
        rw [List.nodup_append]
        refine ⟨set.distinct, by simp, ?_⟩
        intro present isPresent other isOther
        rw [List.mem_singleton] at isOther
        subst isOther
        intro equal
        exact absent (equal ▸ isPresent) }
  else
    set

/-- The names of a list without repeats. -/
def ofList (names : List String) : NameSet :=
  names.foldl insert empty

theorem names_insert_of_mem {set : NameSet} {name : String} (present : name ∈ set.names) :
    (set.insert name).names = set.names := by
  simp [insert, present]

theorem names_insert_of_not_mem {set : NameSet} {name : String} (absent : name ∉ set.names) :
    (set.insert name).names = set.names ++ [name] := by
  simp [insert, absent]

end NameSet

end TemplateMarkup
