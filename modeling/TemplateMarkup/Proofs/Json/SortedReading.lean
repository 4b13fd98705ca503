import TemplateMarkup.Proofs.Json.Codec
import TemplateMarkup.Proofs.Json.Sorting

/-!
# Reading values with sorted members

A record is read by the names of its fields.  So a decoder that is made for records gives the same
value if the members of all objects are sorted beforehand, or no value in either case.  Which fault it
gives may be another one, because the first fault in the text counts.
-/

namespace TemplateMarkup

open Json (sortedMembers)

namespace Placed

variable {α β : Type}

/-- The value of a part, or nothing if there is a fault. -/
def value? (part : Placed α) : Option α := part.result.toOption

theorem value?_map (function : α → β) (part : Placed α) :
    (function <$> part).value? = part.value?.map function := by
  rcases part with ⟨fault | value⟩ <;> rfl

theorem value?_seq (first : Placed (α → β)) (second : Placed α) :
    (first <*> second).value? = first.value?.bind fun function => second.value?.map function := by
  rcases first with ⟨early | function⟩ <;> rcases second with ⟨late | value⟩ <;> rfl

theorem value?_atPlace (place : Nat) (result : Except DecodeFault α) :
    (atPlace place result).value? = result.toOption := by
  cases result <;> rfl

theorem toOption_toExcept (part : Placed α) : part.toExcept.toOption = part.value? := by
  rcases part with ⟨fault | value⟩ <;> rfl

end Placed

theorem toOption_map {ε α β : Type} (function : α → β) (result : Except ε α) :
    (function <$> result).toOption = result.toOption.map function := by
  cases result <;> rfl

theorem toOption_bind {ε α β : Type} (first : Except ε α) (next : α → Except ε β) :
    (first >>= next).toOption = first.toOption.bind fun value => (next value).toOption := by
  cases first <;> rfl

/-- Whether a list can be read, and as what, depends on that of its items. -/
theorem toOption_mapM_congr {ε α β : Type} {first second : α → Except ε β} {items : List α}
    (same : ∀ item ∈ items, (first item).toOption = (second item).toOption) :
    (items.mapM first).toOption = (items.mapM second).toOption := by
  induction items with
  | nil => rfl
  | cons item rest ih =>
      have later := ih fun other member => same other (List.mem_cons_of_mem _ member)
      have first := same item List.mem_cons_self
      rw [List.mapM_cons, List.mapM_cons, toOption_bind, toOption_bind, first]
      congr 1
      funext value
      rw [toOption_bind, toOption_bind, later]

namespace Fields

variable {α β : Type} {members : List (String × Json)}

/-- Nothing else is read of a part of a record if its members are sorted. -/
def ReadsSorted (members : List (String × Json)) (part : Fields → Placed α) : Prop :=
  (part (ofMembers (sortedMembers members))).value? = (part (ofMembers members)).value?

theorem value?_field (members : List (String × Json)) (name : String) (whenAbsent : Option α)
    (decode : Outline → Except DecodeFault α) :
    ((ofMembers members).field name whenAbsent decode).value? =
      match members.lookup name with
      | some written => (decode written.outline).toOption
      | none => whenAbsent := by
  cases found : members.lookup name with
  | some written =>
      obtain ⟨place, located⟩ := locate_of_lookup found
      simp only [field, located]
      exact Placed.value?_atPlace place _
  | none =>
      obtain ⟨place, located⟩ := locate_of_lookup_none found
      simp only [field, located]
      cases whenAbsent <;> rfl

namespace ReadsSorted

theorem map (function : α → β) {part : Fields → Placed α} (reads : ReadsSorted members part) :
    ReadsSorted members fun fields => function <$> part fields := by
  unfold ReadsSorted at reads ⊢
  rw [Placed.value?_map, Placed.value?_map, reads]

theorem seq {first : Fields → Placed (α → β)} {second : Fields → Placed α}
    (isFirst : ReadsSorted members first) (isSecond : ReadsSorted members second) :
    ReadsSorted members fun fields => first fields <*> second fields := by
  unfold ReadsSorted at isFirst isSecond ⊢
  rw [Placed.value?_seq, Placed.value?_seq, isFirst, isSecond]

/-- A field is found wherever it is, and sorting what is in it makes no difference. -/
theorem field (distinct : (members.map Prod.fst).Nodup) {name : String} {whenAbsent : Option α}
    {decode : Outline → Except DecodeFault α}
    (inside : ∀ written, members.lookup name = some written →
      (decode written.sorted.outline).toOption = (decode written.outline).toOption) :
    ReadsSorted members fun fields => fields.field name whenAbsent decode := by
  unfold ReadsSorted
  rw [value?_field, value?_field, Json.lookup_sortedMembers distinct]
  cases found : members.lookup name with
  | some written => exact inside written found
  | none => rfl

theorem required (distinct : (members.map Prod.fst).Nodup) {name : String}
    {decode : Outline → Except DecodeFault α}
    (inside : ∀ written, members.lookup name = some written →
      (decode written.sorted.outline).toOption = (decode written.outline).toOption) :
    ReadsSorted members fun fields => fields.required name decode :=
  field distinct inside

end ReadsSorted

end Fields

namespace Decoder

variable {α : Type} {members : List (String × Json)} {names : List String}
  {build : Nat → Fields → Placed α}

/-- Nothing else is read if the members of all objects in the value are sorted. -/
def ReadsSorted (decode : Decoder α) (depth : Nat) (written : Json) : Prop :=
  (decode depth written.sorted.outline).toOption = (decode depth written.outline).toOption

theorem toOption_refuse (outline : Outline) :
    (refuse outline : Except DecodeFault α).toOption = none := by
  unfold refuse
  split <;> rfl

theorem string_readsSorted (depth : Nat) (written : Json) : ReadsSorted string depth written := by
  cases written <;> rfl

theorem bool_readsSorted (depth : Nat) (written : Json) : ReadsSorted bool depth written := by
  cases written <;> rfl

theorem nullable_readsSorted {decode : Decoder α} {depth : Nat} {written : Json}
    (reads : ReadsSorted decode depth written) : ReadsSorted (nullable decode) depth written := by
  cases written with
  | null => rfl
  | _ => exact (toOption_map _ _).trans ((congrArg _ reads).trans (toOption_map _ _).symm)

theorem toOption_close_map {items : Except DecodeFault (List α)} :
    (items >>= close true).toOption = items.toOption := by
  cases items <;> rfl

/-- A list is read as before if each item is. -/
theorem list_readsSorted {decode : Decoder α} {depth : Nat} {items : List Json}
    (each : ∀ inner, depth = inner + 1 → ∀ item ∈ items, ReadsSorted decode inner item) :
    ReadsSorted (list decode) depth (.array items) := by
  unfold ReadsSorted
  rw [Json.sorted, Json.outline, Json.outline, Json.sortedItems_eq_map]
  cases depth with
  | zero => rfl
  | succ inner =>
      have mapped (sort : Json → Json) : Json.outlines (items.map sort) =
          items.map fun item => (sort item).outline := by
        induction items with
        | nil => rfl
        | cons item rest ih =>
            have later := ih fun deeper isInner other member =>
              each deeper isInner other (.tail _ member)
            rw [List.map_cons, Json.outlines, later]
            rfl
      have plain := mapped id
      rw [List.map_id] at plain
      rw [list, list, toOption_close_map, toOption_close_map, mapped, plain, List.mapM_map,
        List.mapM_map]
      exact toOption_mapM_congr fun item member => each inner rfl item member

/-- A record is read as before if its parts are. -/
theorem record_readsSorted {depth : Nat} (distinct : (members.map Prod.fst).Nodup)
    (parts : ∀ inner, depth = inner + 1 → Fields.ReadsSorted members (build inner)) :
    ReadsSorted (record names build) depth (.object members) := by
  unfold ReadsSorted
  rw [Json.sorted]
  cases depth with
  | zero => rfl
  | succ inner =>
      rw [record_eq_built distinct, record_eq_built (Json.distinct_sortedMembers distinct),
        Placed.toOption_toExcept, Placed.toOption_toExcept]
      exact parts inner rfl

/-- So is a record that shares its object with another value. -/
theorem openRecord_readsSorted {depth : Nat} (distinct : (members.map Prod.fst).Nodup)
    (others : ∀ inner, ∀ member ∈ members, member.1 ∉ names →
      member.2.outline.isSound inner = true)
    (parts : ∀ inner, depth = inner + 1 → Fields.ReadsSorted members (build inner)) :
    ReadsSorted (openRecord names build) depth (.object members) := by
  unfold ReadsSorted
  rw [Json.sorted]
  cases depth with
  | zero => rfl
  | succ inner =>
      rw [openRecord_eq_built distinct (others inner),
        openRecord_eq_built (Json.distinct_sortedMembers distinct)]
      · rw [Placed.toOption_toExcept, Placed.toOption_toExcept]
        exact parts inner rfl
      · intro member isMember unknown
        obtain ⟨before, wasMember, rfl⟩ :=
          List.mem_map.mp ((Json.perm_sortedMembers members).mem_iff.mp isMember)
        exact (before.2.isSound_outline_sorted inner).trans (others inner before wasMember unknown)

/-- A decoder that undoes an encoding undoes it with sorted members, too. -/
theorem Undoes.sorted {decode : Decoder α} {encode : α → Json} {valid : α → Prop} {depth : Nat}
    (undoes : Undoes decode encode valid depth)
    (reads : ∀ value, ReadsSorted decode depth (encode value)) :
    Undoes decode (fun value => (encode value).sorted) valid depth where
  reads {value} isValid fits := by
    have isRead := undoes.reads isValid ((Json.nesting_sorted_le_iff _ _).mp fits)
    have same := (reads value).trans (congrArg Except.toOption isRead)
    generalize decode depth (encode value).sorted.outline = result at same
    cases result with
    | error fault => cases same
    | ok other => exact congrArg Except.ok (Option.some.inj same)
  gives {outline value} isRead := by
    obtain ⟨isValid, fits⟩ := undoes.gives isRead
    exact ⟨isValid, (Json.nesting_sorted_le_iff _ _).mpr fits⟩

end Decoder

end TemplateMarkup
