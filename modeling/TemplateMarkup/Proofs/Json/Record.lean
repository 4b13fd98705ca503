import TemplateMarkup.Proofs.Json.Nesting

/-!
# Reading records back

A record is read from the members of an object by name.  Where the members are the written ones, each
under a name of its own, every field is found, or left out if its member was left out.  In the other
direction, a record that has been read had all its fields read, each from an outline at its depth.
-/

namespace TemplateMarkup

namespace Placed

variable {α β : Type}

theorem map_eq_ok {function : α → β} {part : Placed α} {value : β} :
    function <$> part = ok value ↔ ∃ inner, part = ok inner ∧ function inner = value := by
  rcases part with ⟨fault | inner⟩
  · constructor
    · intro equal
      cases equal
    · rintro ⟨_, equal, _⟩
      cases equal
  · constructor
    · intro equal
      cases equal
      exact ⟨inner, rfl, rfl⟩
    · rintro ⟨_, equal, rfl⟩
      cases equal
      rfl

theorem seq_eq_ok {first : Placed (α → β)} {second : Placed α} {value : β} :
    first <*> second = ok value ↔
      ∃ function inner, first = ok function ∧ second = ok inner ∧ function inner = value := by
  rcases first with ⟨early | function⟩ <;> rcases second with ⟨late | inner⟩
  · constructor
    · intro equal
      cases equal
    · rintro ⟨_, _, equal, _⟩
      cases equal
  · constructor
    · intro equal
      cases equal
    · rintro ⟨_, _, equal, _⟩
      cases equal
  · constructor
    · intro equal
      cases equal
    · rintro ⟨_, _, _, equal, _⟩
      cases equal
  · constructor
    · intro equal
      cases equal
      exact ⟨function, inner, rfl, rfl, rfl⟩
    · rintro ⟨_, _, isFunction, isInner, rfl⟩
      cases isFunction
      cases isInner
      rfl

theorem map_ok {function : α → β} {part : Placed α} {value : α} (isValue : part = ok value) :
    function <$> part = ok (function value) :=
  map_eq_ok.mpr ⟨value, isValue, rfl⟩

theorem seq_ok {first : Placed (α → β)} {second : Placed α} {function : α → β} {value : α}
    (isFunction : first = ok function) (isValue : second = ok value) :
    first <*> second = ok (function value) :=
  seq_eq_ok.mpr ⟨function, value, isFunction, isValue, rfl⟩

theorem atPlace_eq_ok {place : Nat} {result : Except DecodeFault α} {value : α} :
    atPlace place result = ok value ↔ result = .ok value := by
  rcases result with fault | inner
  · constructor <;> intro equal <;> cases equal
  · constructor <;> intro equal <;> cases equal <;> rfl

theorem toExcept_eq_ok {placed : Placed α} {value : α} :
    placed.toExcept = .ok value ↔ placed = ok value := by
  rcases placed with ⟨fault | inner⟩
  · constructor <;> intro equal <;> cases equal
  · constructor <;> intro equal <;> cases equal <;> rfl

/-- What comes out of a check and a record that is built is the record. -/
theorem eq_ok_of_checked {checked : Placed Unit} {built : Placed α} {value : α}
    (read : ((fun _ value => value) <$> checked <*> built).toExcept = .ok value) :
    built = ok value := by
  obtain ⟨_, _, isChecked, isBuilt, rfl⟩ := seq_eq_ok.mp (toExcept_eq_ok.mp read)
  obtain ⟨_, _, rfl⟩ := map_eq_ok.mp isChecked
  exact isBuilt

end Placed

namespace Fields

variable {α : Type}

/-- The record that consists of written members. -/
def ofMembers (members : List (String × Json)) : Fields :=
  .members (Json.memberOutlines members) true

theorem locate_of_lookup {members : List (String × Json)} {name : String} {value : Json}
    (found : members.lookup name = some value) :
    ∃ place, (ofMembers members).locate name = .found place value.outline := by
  have indexed : ∃ place,
      (Json.memberOutlines members).findIdx? (·.1 == some name) = some place ∧
        (Json.memberOutlines members)[place]?.map Prod.snd = some value.outline := by
    induction members with
    | nil => cases found
    | cons member rest ih =>
        obtain ⟨first, content⟩ := member
        rw [Json.memberOutlines, List.findIdx?_cons]
        rw [List.lookup_cons] at found
        by_cases same : first = name
        · refine ⟨0, by simp [same], ?_⟩
          have isValue : content = value := by simpa [same] using found
          simp [isValue]
        · have notHere : (name == first) = false := beq_eq_false_iff_ne.mpr (Ne.symm same)
          rw [notHere] at found
          obtain ⟨place, isIndex, isValue⟩ := ih found
          exact ⟨place + 1, by simp [same, isIndex], by simpa using isValue⟩
  obtain ⟨place, isIndex, isValue⟩ := indexed
  refine ⟨place, ?_⟩
  simp only [locate, ofMembers, isIndex, isValue, Option.getD_some]

theorem locate_of_lookup_none {members : List (String × Json)} {name : String}
    (missing : members.lookup name = none) :
    ∃ place, (ofMembers members).locate name = .absent place := by
  have notIndexed : (Json.memberOutlines members).findIdx? (·.1 == some name) = none := by
    induction members with
    | nil => rfl
    | cons member rest ih =>
        obtain ⟨first, content⟩ := member
        rw [List.lookup_cons] at missing
        split at missing
        · cases missing
        · next different =>
            have other : first ≠ name := Ne.symm (beq_eq_false_iff_ne.mp different)
            rw [Json.memberOutlines, List.findIdx?_cons, ih missing]
            simp [other]
  refine ⟨(Json.memberOutlines members).length + 1, ?_⟩
  simp only [locate, ofMembers, notIndexed]

theorem field_of_lookup {members : List (String × Json)} {name : String} {written : Json}
    {whenAbsent : Option α} {decode : Outline → Except DecodeFault α} {value : α}
    (found : members.lookup name = some written) (decodes : decode written.outline = .ok value) :
    (ofMembers members).field name whenAbsent decode = .ok value := by
  obtain ⟨place, located⟩ := locate_of_lookup found
  simp only [field, located, decodes]
  rfl

theorem field_of_lookup_none {members : List (String × Json)} {name : String}
    {decode : Outline → Except DecodeFault α} {value : α} (missing : members.lookup name = none) :
    (ofMembers members).field name (some value) decode = .ok value := by
  obtain ⟨place, located⟩ := locate_of_lookup_none missing
  simp only [field, located]

theorem required_ne_ok_of_lookup_none {members : List (String × Json)} {name : String}
    {decode : Outline → Except DecodeFault α} {value : α} (missing : members.lookup name = none) :
    (ofMembers members).required name decode ≠ .ok value := by
  obtain ⟨place, located⟩ := locate_of_lookup_none missing
  simp only [required, field, located]
  intro equal
  cases equal

/-- What has been read of a field was there, or is what an absent field has. -/
theorem exists_of_field_eq_ok {fields : Fields} {name : String} {whenAbsent : Option α}
    {decode : Outline → Except DecodeFault α} {value : α}
    (read : fields.field name whenAbsent decode = .ok value) :
    (∃ outline, decode outline = .ok value) ∨ whenAbsent = some value := by
  unfold field at read
  split at read
  · next outline located => exact .inl ⟨outline, Placed.atPlace_eq_ok.mp read⟩
  · cases read
  · split at read
    · cases read
      exact .inr rfl
    · cases read

theorem exists_of_required_eq_ok {fields : Fields} {name : String}
    {decode : Outline → Except DecodeFault α} {value : α}
    (read : fields.required name decode = .ok value) : ∃ outline, decode outline = .ok value := by
  rcases exists_of_field_eq_ok read with found | absent
  · exact found
  · cases absent

theorem checkMembers_eq_ok {names : List String} {mayBe : Outline → Bool}
    {members : List (String × Json)} {seen : List String} {place : Nat}
    (distinct : (members.map Prod.fst).Nodup) (fresh : ∀ member ∈ members, member.1 ∉ seen)
    (others : ∀ member ∈ members, member.1 ∉ names → mayBe member.2.outline = true) :
    checkMembers names mayBe seen place (Json.memberOutlines members) = .ok () := by
  induction members generalizing seen place with
  | nil => rfl
  | cons member rest ih =>
      obtain ⟨name, value⟩ := member
      obtain ⟨notLater, distinctLater⟩ := List.nodup_cons.mp distinct
      have othersLater : ∀ member ∈ rest, member.1 ∉ names → mayBe member.2.outline = true :=
        fun other member => others other (List.mem_cons_of_mem _ member)
      have notSeen : seen.contains name = false := by
        simpa using fresh (name, value) (by simp)
      rw [Json.memberOutlines, checkMembers]
      by_cases known : name ∈ names
      · rw [if_pos (by simpa using known), notSeen, if_neg (by simp)]
        refine ih distinctLater ?_ othersLater
        intro other member isSeen
        rcases List.mem_cons.mp isSeen with same | earlier
        · exact notLater (List.mem_map.mpr ⟨other, member, same⟩)
        · exact fresh other (List.mem_cons_of_mem _ member) earlier
      · rw [if_neg (by simpa using known), if_pos (others (name, value) (by simp) known)]
        exact ih distinctLater
          (fun other member => fresh other (List.mem_cons_of_mem _ member)) othersLater

/-- Distinct members pass any check that lets the unknown ones be, and nothing is left of it. -/
theorem check_then {names : List String} {mayBe : Outline → Bool} {members : List (String × Json)}
    (distinct : (members.map Prod.fst).Nodup)
    (others : ∀ member ∈ members, member.1 ∉ names → mayBe member.2.outline = true)
    (built : Placed α) :
    (fun _ value => value) <$> (ofMembers members).check names mayBe <*> built = built := by
  have checked : checkMembers names mayBe [] 0 (Json.memberOutlines members) = .ok () :=
    checkMembers_eq_ok distinct (by simp) others
  simp only [ofMembers, check, checked]
  rcases built with ⟨_ | _⟩ <;> rfl

end Fields

namespace Decoder

open Fields

variable {α : Type}

theorem record_eq_built {names : List String} {build : Nat → Fields → Placed α}
    {members : List (String × Json)} {depth : Nat} (distinct : (members.map Prod.fst).Nodup) :
    record names build (depth + 1) (Json.object members).outline =
      (build depth (ofMembers members)).toExcept :=
  congrArg Placed.toExcept
    (check_then distinct (fun member _ _ => member.2.isComplete_outline) _)

theorem openRecord_eq_built {names : List String} {build : Nat → Fields → Placed α}
    {members : List (String × Json)} {depth : Nat} (distinct : (members.map Prod.fst).Nodup)
    (others : ∀ member ∈ members, member.1 ∉ names → member.2.outline.isSound depth = true) :
    openRecord names build (depth + 1) (Json.object members).outline =
      (build depth (ofMembers members)).toExcept :=
  congrArg Placed.toExcept (check_then distinct others _)

/-- The members of a record, in any order. -/
theorem record_ofMembers {names : List String} {build : Nat → Fields → Placed α}
    {members : List (String × Json)} {depth : Nat} {value : α}
    (distinct : (members.map Prod.fst).Nodup)
    (built : build depth (ofMembers members) = .ok value) :
    record names build (depth + 1) (Json.object members).outline = .ok value := by
  rw [record_eq_built distinct, built]
  rfl

/-- The members of a record in the order of its fields, some of them left out. -/
theorem record_object {names : List String} {build : Nat → Fields → Placed α}
    {members : List (String × Json)} {depth : Nat} {value : α} (distinct : names.Nodup)
    (inOrder : (members.map Prod.fst).Sublist names)
    (built : build depth (ofMembers members) = .ok value) :
    record names build (depth + 1) (Json.object members).outline = .ok value :=
  record_ofMembers (inOrder.nodup distinct) built

/-- The members of a record that shares its object with another value. -/
theorem openRecord_object {names : List String} {build : Nat → Fields → Placed α}
    {members : List (String × Json)} {depth : Nat} {value : α}
    (distinct : (members.map Prod.fst).Nodup)
    (others : ∀ member ∈ members, member.1 ∉ names → member.2.outline.isSound depth = true)
    (built : build depth (ofMembers members) = .ok value) :
    openRecord names build (depth + 1) (Json.object members).outline = .ok value := by
  rw [openRecord_eq_built distinct others, built]
  rfl

theorem refuse_ne_ok {outline : Outline} {value : α} : refuse outline ≠ .ok value := by
  unfold refuse
  split <;> simp

/-- A record takes one container, and all of its fields have been read. -/
theorem exists_of_record_eq_ok {names : List String} {build : Nat → Fields → Placed α}
    {depth : Nat} {outline : Outline} {value : α}
    (read : record names build depth outline = .ok value) :
    ∃ inner fields, depth = inner + 1 ∧ build inner fields = .ok value := by
  unfold record at read
  split at read
  · cases read
  · cases read
  · next inner list isClosed => exact ⟨inner, _, rfl, Placed.eq_ok_of_checked read⟩
  · next inner list isClosed => exact ⟨inner, _, rfl, Placed.eq_ok_of_checked read⟩
  · exact absurd read refuse_ne_ok

theorem exists_of_record_object_eq_ok {names : List String} {build : Nat → Fields → Placed α}
    {depth : Nat} {members : List (String × Json)} {value : α}
    (read : record names build depth (Json.object members).outline = .ok value) :
    ∃ inner, depth = inner + 1 ∧ build inner (ofMembers members) = .ok value := by
  cases depth with
  | zero => cases read
  | succ inner => exact ⟨inner, rfl, Placed.eq_ok_of_checked read⟩

theorem exists_of_openRecord_eq_ok {names : List String} {build : Nat → Fields → Placed α}
    {depth : Nat} {outline : Outline} {value : α}
    (read : openRecord names build depth outline = .ok value) :
    ∃ inner fields, depth = inner + 1 ∧ build inner fields = .ok value := by
  unfold openRecord at read
  split at read
  · cases read
  · next inner list isClosed => exact ⟨inner, _, rfl, Placed.eq_ok_of_checked read⟩
  · exact absurd read refuse_ne_ok

end Decoder

end TemplateMarkup
