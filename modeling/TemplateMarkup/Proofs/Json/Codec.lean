import TemplateMarkup.Document.Encode
import TemplateMarkup.Proofs.Json.Record

/-!
# Decoders that undo an encoding

A decoder undoes an encoding if it reads every valid value back from its encoded form wherever there
is room for it, and if everything it ever reads is valid and takes no more room, once encoded, than
there was.  Lists and maps inherit this from what is in them, and a record has it if each of its
fields does.
-/

namespace TemplateMarkup

namespace NameSet

theorem names_foldl_insert {names : List String} {set : NameSet}
    (distinct : (set.names ++ names).Nodup) :
    (names.foldl insert set).names = set.names ++ names := by
  induction names generalizing set with
  | nil => simp
  | cons name rest ih =>
      have absent : name ∉ set.names := by
        intro present
        exact (List.nodup_append.mp distinct).2.2 name present name (by simp) rfl
      have inserted := names_insert_of_not_mem absent
      rw [List.foldl_cons, ih (by rw [inserted]; simpa using distinct), inserted]
      simp

theorem ofList_names (set : NameSet) : ofList set.names = set := by
  have names : (ofList set.names).names = empty.names ++ set.names :=
    names_foldl_insert set.distinct
  rcases set with ⟨names, distinct⟩
  exact NameSet.mk.injEq .. ▸ names

end NameSet

namespace NameMap

variable {α : Type}

theorem entries_foldl_insert {entries : List (String × α)} {map : NameMap α}
    (distinct : ((map.entries ++ entries).map Prod.fst).Nodup) :
    (entries.foldl (fun map entry => map.insert entry.1 entry.2) map).entries =
      map.entries ++ entries := by
  induction entries generalizing map with
  | nil => simp
  | cons entry rest ih =>
      have absent : entry.1 ∉ map.entries.map Prod.fst := by
        intro present
        rw [List.map_append] at distinct
        exact (List.nodup_append.mp distinct).2.2 entry.1 present entry.1 (by simp) rfl
      have inserted : (map.insert entry.1 entry.2).entries = map.entries ++ [entry] := by
        rw [insert, dif_pos absent]
      rw [List.foldl_cons, ih (by rw [inserted]; simpa using distinct), inserted]
      simp

theorem ofList_entries (map : NameMap α) : ofList map.entries = map := by
  have entries : (ofList map.entries).entries = empty.entries ++ map.entries :=
    entries_foldl_insert map.distinct
  rcases map with ⟨entries, distinct⟩
  exact NameMap.mk.injEq .. ▸ entries

theorem mem_entries_insert {map : NameMap α} {name : String} {value : α} {entry : String × α}
    (member : entry ∈ (map.insert name value).entries) :
    entry ∈ map.entries ∨ entry = (name, value) := by
  unfold insert at member
  split at member
  · rcases List.mem_append.mp member with old | new
    · exact .inl old
    · exact .inr (List.mem_singleton.mp new)
  · obtain ⟨old, isOld, replaced⟩ := List.mem_map.mp member
    split at replaced
    · exact .inr replaced.symm
    · exact .inl (replaced ▸ isOld)

/-- Every entry of a map comes from the list of which the map was made. -/
theorem mem_of_mem_foldl_insert {entries : List (String × α)} {map : NameMap α}
    {entry : String × α}
    (member : entry ∈ (entries.foldl (fun map entry => map.insert entry.1 entry.2) map).entries) :
    entry ∈ map.entries ∨ entry ∈ entries := by
  induction entries generalizing map with
  | nil => exact .inl member
  | cons first rest ih =>
      rcases ih member with inserted | later
      · rcases mem_entries_insert inserted with old | new
        · exact .inl old
        · exact .inr (by simp [new])
      · exact .inr (List.mem_cons_of_mem _ later)

end NameMap

namespace Json

variable {name sought : String}

@[simp]
theorem lookup_member (value : Json) (rest : List (String × Json)) :
    ((name, value) :: rest).lookup sought = if sought = name then some value else rest.lookup sought := by
  rw [List.lookup_cons]
  by_cases same : sought = name
  · simp [same]
  · simp [same, beq_eq_false_iff_ne.mpr same]

@[simp]
theorem lookup_optionalMember (value : Option Json) :
    (optionalMember name value).lookup sought = if sought = name then value else none := by
  cases value <;> simp [optionalMember, lookup_member]

@[simp]
theorem lookup_listMember (items : List Json) :
    (listMember name items).lookup sought =
      if sought = name ∧ items ≠ [] then some (array items) else none := by
  cases items <;> simp [listMember, lookup_member]

@[simp]
theorem lookup_objectMember (members : List (String × Json)) :
    (objectMember name members).lookup sought =
      if sought = name ∧ members ≠ [] then some (object members) else none := by
  cases members <;> simp [objectMember, lookup_member]

@[simp]
theorem lookup_flagMember (value : Bool) :
    (flagMember name value).lookup sought =
      if sought = name ∧ value = true then some (bool true) else none := by
  cases value <;> simp [flagMember, lookup_member]

theorem names_optionalMember (value : Option Json) :
    ((optionalMember name value).map Prod.fst).Sublist [name] := by
  cases value <;> simp [optionalMember]

theorem names_listMember (items : List Json) :
    ((listMember name items).map Prod.fst).Sublist [name] := by
  cases items <;> simp [listMember]

theorem names_objectMember (members : List (String × Json)) :
    ((objectMember name members).map Prod.fst).Sublist [name] := by
  cases members <;> simp [objectMember]

theorem names_flagMember (value : Bool) :
    ((flagMember name value).map Prod.fst).Sublist [name] := by
  cases value <;> simp [flagMember]

variable {holds : Json → Prop}

@[simp]
theorem allMembers_nil : AllMembers holds [] := by simp [AllMembers]

@[simp]
theorem allMembers_cons {member : String × Json} {rest : List (String × Json)} :
    AllMembers holds (member :: rest) ↔ holds member.2 ∧ AllMembers holds rest := by
  unfold AllMembers
  exact List.forall_mem_cons

@[simp]
theorem allMembers_append {first second : List (String × Json)} :
    AllMembers holds (first ++ second) ↔ AllMembers holds first ∧ AllMembers holds second := by
  unfold AllMembers
  exact List.forall_mem_append

@[simp]
theorem allMembers_optionalMember {value : Option Json} :
    AllMembers holds (optionalMember name value) ↔ ∀ content ∈ value, holds content := by
  cases value <;> simp [optionalMember]

@[simp]
theorem allMembers_listMember {items : List Json} :
    AllMembers holds (listMember name items) ↔ (items ≠ [] → holds (array items)) := by
  cases items <;> simp [listMember]

@[simp]
theorem allMembers_objectMember {members : List (String × Json)} :
    AllMembers holds (objectMember name members) ↔ (members ≠ [] → holds (object members)) := by
  cases members <;> simp [objectMember]

@[simp]
theorem allMembers_flagMember {value : Bool} :
    AllMembers holds (flagMember name value) ↔ (value = true → holds (bool true)) := by
  cases value <;> simp [flagMember]

end Json

namespace Decoder

variable {α : Type}

/-- At a depth, the decoder undoes the encoding of valid values and gives nothing but valid values. -/
structure Undoes (decode : Decoder α) (encode : α → Json) (valid : α → Prop) (depth : Nat) :
    Prop where
  reads : ∀ {value : α}, valid value → (encode value).nesting ≤ depth →
    decode depth (encode value).outline = .ok value
  gives : ∀ {outline : Outline} {value : α}, decode depth outline = .ok value →
    valid value ∧ (encode value).nesting ≤ depth

theorem string_undoes (depth : Nat) : Undoes string .string (fun _ => True) depth where
  reads _ _ := rfl
  gives _ := ⟨trivial, Nat.zero_le _⟩

theorem bool_undoes (depth : Nat) : Undoes bool .bool (fun _ => True) depth where
  reads _ _ := rfl
  gives _ := ⟨trivial, Nat.zero_le _⟩

/-- A string that may be missing. -/
def encodeNullable (value : Option String) : Json :=
  (value.map Json.string).getD .null

theorem nullable_undoes (depth : Nat) :
    Undoes (nullable string) encodeNullable (fun _ => True) depth where
  reads {value} _ _ := by cases value <;> rfl
  gives {_ value} _ := by
    refine ⟨trivial, ?_⟩
    cases value <;> exact Nat.zero_le _

theorem exists_of_bind_eq_ok {β : Type} {first : Except DecodeFault α}
    {next : α → Except DecodeFault β} {value : β} (both : first >>= next = .ok value) :
    ∃ found, first = .ok found ∧ next found = .ok value := by
  cases first with
  | error fault => cases both
  | ok found => exact ⟨found, rfl, both⟩

theorem eq_of_close_eq_ok {isClosed : Bool} {found value : α}
    (closed : close isClosed found = .ok value) : found = value := by
  cases isClosed with
  | false => cases closed
  | true => exact Except.ok.inj closed

section Lists

variable {decode : Decoder α} {encode : α → Json} {valid : α → Prop}

theorem mapM_outlines {depth : Nat} {values : List α}
    (reads : ∀ value ∈ values, decode depth (encode value).outline = .ok value) :
    (Json.outlines (values.map encode)).mapM (decode depth) = .ok values := by
  induction values with
  | nil => rfl
  | cons value rest ih =>
      have later := ih fun other member => reads other (List.mem_cons_of_mem _ member)
      rw [List.map_cons, Json.outlines, List.mapM_cons, reads value (by simp), later]
      rfl

theorem exists_of_mapM_eq_ok {β : Type} {read : β → Except DecodeFault α} {items : List β}
    {values : List α} (all : items.mapM read = .ok values) :
    ∀ value ∈ values, ∃ item, read item = .ok value := by
  induction items generalizing values with
  | nil =>
      cases all
      simp
  | cons item rest ih =>
      rw [List.mapM_cons] at all
      obtain ⟨value, first, others⟩ := exists_of_bind_eq_ok all
      obtain ⟨values, later, whole⟩ := exists_of_bind_eq_ok others
      cases whole
      intro other member
      rcases List.mem_cons.mp member with rfl | member
      · exact ⟨item, first⟩
      · exact ih later other member

theorem list_undoes {depth : Nat}
    (undoes : ∀ inner, depth = inner + 1 → Undoes decode encode valid inner) :
    Undoes (list decode) (fun values => .array (values.map encode))
      (fun values => ∀ value ∈ values, valid value) depth where
  reads {values} areValid fits := by
    obtain ⟨inner, rfl, fitsInside⟩ := Json.exists_depth_of_array fits
    have read := mapM_outlines fun value member =>
      (undoes inner rfl).reads (areValid value member)
        (fitsInside _ (List.mem_map_of_mem member))
    simp only [Json.outline, list, read]
    rfl
  gives {outline values} read := by
    unfold list at read
    split at read
    · cases read
    · next inner items isClosed =>
        obtain ⟨found, all, closed⟩ := exists_of_bind_eq_ok read
        obtain rfl := eq_of_close_eq_ok closed
        have each := exists_of_mapM_eq_ok all
        constructor
        · intro value member
          obtain ⟨item, isRead⟩ := each value member
          exact ((undoes inner rfl).gives isRead).1
        · rw [Json.nesting_array_le_iff]
          intro json member
          obtain ⟨value, isValue, rfl⟩ := List.mem_map.mp member
          obtain ⟨item, isRead⟩ := each value isValue
          exact ((undoes inner rfl).gives isRead).2
    · exact absurd read refuse_ne_ok

theorem mapM_memberOutlines {depth : Nat} {entries : List (String × α)}
    (reads : ∀ entry ∈ entries, decode depth (encode entry.2).outline = .ok entry.2) :
    (Json.memberOutlines (entries.map fun entry => (entry.1, encode entry.2))).mapM
        (entry (decode depth)) = .ok entries := by
  induction entries with
  | nil => rfl
  | cons first rest ih =>
      obtain ⟨name, value⟩ := first
      have isRead : decode depth (encode value).outline = .ok value := reads (name, value) (by simp)
      have later := ih fun other member => reads other (List.mem_cons_of_mem _ member)
      rw [List.map_cons, Json.memberOutlines, List.mapM_cons, entry, isRead, later]
      rfl

theorem exists_of_entry_eq_ok {read : Outline → Except DecodeFault α}
    {item : Option String × Outline} {result : String × α} (isRead : entry read item = .ok result) :
    ∃ outline, read outline = .ok result.2 := by
  rcases item with ⟨name | name, outline⟩
  · cases isRead
  · obtain ⟨value, content, whole⟩ := exists_of_bind_eq_ok isRead
    cases whole
    exact ⟨outline, content⟩

theorem nameMap_undoes {depth : Nat}
    (undoes : ∀ inner, depth = inner + 1 → Undoes decode encode valid inner) :
    Undoes (nameMap decode) (fun map => .object (map.encodeMembers encode))
      (fun map => ∀ entry ∈ map.entries, valid entry.2) depth where
  reads {map} areValid fits := by
    obtain ⟨inner, rfl, fitsInside⟩ := Json.exists_depth_of_object fits
    have read := mapM_memberOutlines fun entry member =>
      (undoes inner rfl).reads (areValid entry member)
        (fitsInside (entry.1, encode entry.2) (List.mem_map.mpr ⟨entry, member, rfl⟩))
    have read : (Json.memberOutlines (map.encodeMembers encode)).mapM (entry (decode inner)) =
      .ok map.entries := read
    simp only [Json.outline, nameMap, read]
    exact congrArg Except.ok map.ofList_entries
  gives {outline map} read := by
    unfold nameMap at read
    split at read
    · cases read
    · next inner members isClosed =>
        obtain ⟨found, all, closed⟩ := exists_of_bind_eq_ok read
        obtain rfl := eq_of_close_eq_ok closed
        have each : ∀ result ∈ (NameMap.ofList found).entries,
            valid result.2 ∧ (encode result.2).nesting ≤ inner := by
          intro result member
          have isFound : result ∈ found := by
            rcases NameMap.mem_of_mem_foldl_insert member with old | new
            · cases old
            · exact new
          obtain ⟨item, isRead⟩ := exists_of_mapM_eq_ok all result isFound
          obtain ⟨outline, content⟩ := exists_of_entry_eq_ok isRead
          exact (undoes inner rfl).gives content
        constructor
        · intro result member
          exact (each result member).1
        · rw [Json.nesting_object_le_iff]
          intro json member
          obtain ⟨result, isResult, rfl⟩ := List.mem_map.mp member
          exact (each result isResult).2
    · exact absurd read refuse_ne_ok

end Lists

section FieldsOfMembers

variable {decode : Decoder α} {encode : α → Json} {valid : α → Prop}
variable {members : List (String × Json)} {name : String} {depth : Nat} {value : α}

theorem nesting_le_of_lookup (fits : Json.AllMembers (·.nesting ≤ depth) members) {json : Json}
    (found : members.lookup name = some json) : json.nesting ≤ depth := by
  obtain ⟨before, after, split, -⟩ := List.lookup_eq_some_iff.mp found
  exact fits (name, json) (by simp [split])

theorem required_ofMembers (undoes : Undoes decode encode valid depth)
    (fits : Json.AllMembers (·.nesting ≤ depth) members)
    (found : members.lookup name = some (encode value)) (isValid : valid value) :
    (Fields.ofMembers members).required name (decode depth) = .ok value :=
  Fields.field_of_lookup found (undoes.reads isValid (nesting_le_of_lookup fits found))

/-- A member may be left out if the value is the one that an absent field has. -/
theorem field_ofMembers {whenAbsent : α} (undoes : Undoes decode encode valid depth)
    (fits : Json.AllMembers (·.nesting ≤ depth) members)
    (found : members.lookup name = some (encode value) ∨
      members.lookup name = none ∧ value = whenAbsent) (isValid : valid value) :
    (Fields.ofMembers members).field name (some whenAbsent) (decode depth) = .ok value := by
  rcases found with present | ⟨missing, rfl⟩
  · exact Fields.field_of_lookup present
      (undoes.reads isValid (nesting_le_of_lookup fits present))
  · exact Fields.field_of_lookup_none missing

theorem optional_ofMembers {value : Option String}
    (fits : Json.AllMembers (·.nesting ≤ depth) members)
    (found : members.lookup name =
      (Json.optionalMember name (value.map Json.string)).lookup name) :
    (Fields.ofMembers members).field name (some none) (nullable string depth) = .ok value := by
  refine field_ofMembers (nullable_undoes depth) fits ?_ trivial
  cases value with
  | none => exact .inr ⟨found, rfl⟩
  | some text => exact .inl (by simpa [encodeNullable] using found)

theorem flag_ofMembers {value : Bool} (fits : Json.AllMembers (·.nesting ≤ depth) members)
    (found : members.lookup name = (Json.flagMember name value).lookup name) :
    (Fields.ofMembers members).field name (some false) (bool depth) = .ok value := by
  refine field_ofMembers (bool_undoes depth) fits ?_ trivial
  cases value with
  | false => exact .inr ⟨found, rfl⟩
  | true => exact .inl (by simpa using found)

theorem list_ofMembers {decodeAll : Decoder (List α)} {areValid : List α → Prop}
    {values : List α}
    (undoes : Undoes decodeAll (fun values => .array (values.map encode)) areValid depth)
    (fits : Json.AllMembers (·.nesting ≤ depth) members)
    (found : members.lookup name = (Json.listMember name (values.map encode)).lookup name)
    (valid : areValid values) :
    (Fields.ofMembers members).field name (some []) (decodeAll depth) = .ok values := by
  refine field_ofMembers undoes fits ?_ valid
  cases values with
  | nil => exact .inr ⟨found, rfl⟩
  | cons value rest => exact .inl (by simpa using found)

theorem nameMap_ofMembers {map : NameMap α}
    (undoes : ∀ inner, depth = inner + 1 → Undoes decode encode valid inner)
    (fits : Json.AllMembers (·.nesting ≤ depth) members)
    (found : members.lookup name = (Json.objectMember name (map.encodeMembers encode)).lookup name)
    (areValid : ∀ entry ∈ map.entries, valid entry.2) :
    (Fields.ofMembers members).field name (some .empty) (nameMap decode depth) = .ok map := by
  refine field_ofMembers (nameMap_undoes undoes) fits ?_ areValid
  rcases map with ⟨entries, distinct⟩
  cases entries with
  | nil => exact .inr ⟨found, rfl⟩
  | cons entry rest => exact .inl (by simpa [NameMap.encodeMembers] using found)

theorem gives_of_required {fields : Fields} (undoes : Undoes decode encode valid depth)
    (read : fields.required name (decode depth) = .ok value) :
    valid value ∧ (encode value).nesting ≤ depth := by
  obtain ⟨outline, isRead⟩ := Fields.exists_of_required_eq_ok read
  exact undoes.gives isRead

theorem gives_of_field {fields : Fields} {whenAbsent : α} (undoes : Undoes decode encode valid depth)
    (read : fields.field name (some whenAbsent) (decode depth) = .ok value) :
    (valid value ∧ (encode value).nesting ≤ depth) ∨ value = whenAbsent := by
  rcases Fields.exists_of_field_eq_ok read with ⟨outline, isRead⟩ | absent
  · exact .inl (undoes.gives isRead)
  · exact .inr (Option.some.inj absent).symm

/-- A list that has been read is valid, and it fits unless it is left out. -/
theorem gives_of_list {decodeAll : Decoder (List α)} {areValid : List α → Prop} {fields : Fields}
    {values : List α}
    (undoes : Undoes decodeAll (fun values => .array (values.map encode)) areValid depth)
    (nothing : areValid [])
    (read : fields.field name (some []) (decodeAll depth) = .ok values) :
    areValid values ∧
      (values.map encode ≠ [] → (Json.array (values.map encode)).nesting ≤ depth) := by
  rcases gives_of_field undoes read with ⟨valid, fits⟩ | rfl
  · exact ⟨valid, fun _ => fits⟩
  · exact ⟨nothing, fun nonempty => absurd rfl nonempty⟩

theorem gives_of_nameMap {fields : Fields} {map : NameMap α}
    (undoes : ∀ inner, depth = inner + 1 → Undoes decode encode valid inner)
    (read : fields.field name (some .empty) (nameMap decode depth) = .ok map) :
    (∀ entry ∈ map.entries, valid entry.2) ∧ (map.encodeMembers encode ≠ [] →
      (Json.object (map.encodeMembers encode)).nesting ≤ depth) := by
  rcases gives_of_field (nameMap_undoes undoes) read with ⟨valid, fits⟩ | rfl
  · exact ⟨valid, fun _ => fits⟩
  · exact ⟨by simp [NameMap.empty], fun nonempty => absurd rfl nonempty⟩

end FieldsOfMembers

end Decoder

end TemplateMarkup
