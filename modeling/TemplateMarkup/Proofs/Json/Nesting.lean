import TemplateMarkup.Proofs.Json.Outline

/-!
# How deep a value nests

Every container is one level.  A value without numbers that nests no deeper than allowed has a sound
outline, so it may stand wherever a value is read in full before it is used.
-/

namespace TemplateMarkup

namespace Json

mutual

/-- The number of containers inside one another. -/
def nesting : Json → Nat
  | array items => itemNesting items + 1
  | object members => memberNesting members + 1
  | null => 0
  | bool _ => 0
  | number _ => 0
  | string _ => 0

def itemNesting : List Json → Nat
  | [] => 0
  | item :: rest => max item.nesting (itemNesting rest)

def memberNesting : List (String × Json) → Nat
  | [] => 0
  | (_, value) :: rest => max value.nesting (memberNesting rest)

end

mutual

/-- There is no number anywhere in the value. -/
def isNumberless : Json → Bool
  | array items => areNumberless items
  | object members => membersAreNumberless members
  | number _ => false
  | null => true
  | bool _ => true
  | string _ => true

def areNumberless : List Json → Bool
  | [] => true
  | item :: rest => item.isNumberless && areNumberless rest

def membersAreNumberless : List (String × Json) → Bool
  | [] => true
  | (_, value) :: rest => value.isNumberless && membersAreNumberless rest

end

/-- The contents of all members have a property. -/
def AllMembers (holds : Json → Prop) (members : List (String × Json)) : Prop :=
  ∀ member ∈ members, holds member.2

theorem itemNesting_le_iff {items : List Json} {depth : Nat} :
    itemNesting items ≤ depth ↔ ∀ item ∈ items, item.nesting ≤ depth := by
  induction items with
  | nil => simp [itemNesting]
  | cons item rest ih => rw [itemNesting, Nat.max_le, ih, List.forall_mem_cons]

theorem memberNesting_le_iff {members : List (String × Json)} {depth : Nat} :
    memberNesting members ≤ depth ↔ AllMembers (·.nesting ≤ depth) members := by
  unfold AllMembers
  induction members with
  | nil => simp [memberNesting]
  | cons member rest ih => rw [memberNesting, Nat.max_le, ih, List.forall_mem_cons]

theorem nesting_array_le_iff {items : List Json} {depth : Nat} :
    (array items).nesting ≤ depth + 1 ↔ ∀ item ∈ items, item.nesting ≤ depth := by
  rw [nesting, Nat.add_le_add_iff_right, itemNesting_le_iff]

theorem nesting_object_le_iff {members : List (String × Json)} {depth : Nat} :
    (object members).nesting ≤ depth + 1 ↔ AllMembers (·.nesting ≤ depth) members := by
  rw [nesting, Nat.add_le_add_iff_right, memberNesting_le_iff]

theorem isNumberless_array_iff {items : List Json} :
    (array items).isNumberless = true ↔ ∀ item ∈ items, item.isNumberless = true := by
  rw [isNumberless]
  induction items with
  | nil => simp [areNumberless]
  | cons item rest ih => rw [areNumberless, Bool.and_eq_true, ih, List.forall_mem_cons]

theorem isNumberless_object_iff {members : List (String × Json)} :
    (object members).isNumberless = true ↔ AllMembers (·.isNumberless = true) members := by
  rw [isNumberless]
  unfold AllMembers
  induction members with
  | nil => simp [membersAreNumberless]
  | cons member rest ih => rw [membersAreNumberless, Bool.and_eq_true, ih, List.forall_mem_cons]

/-- Room for a container is room for at least one level. -/
theorem exists_depth_of_array {items : List Json} {depth : Nat}
    (fits : (array items).nesting ≤ depth) :
    ∃ inner, depth = inner + 1 ∧ ∀ item ∈ items, item.nesting ≤ inner := by
  cases depth with
  | zero => exact absurd fits (by simp [nesting])
  | succ inner => exact ⟨inner, rfl, nesting_array_le_iff.mp fits⟩

theorem exists_depth_of_object {members : List (String × Json)} {depth : Nat}
    (fits : (object members).nesting ≤ depth) :
    ∃ inner, depth = inner + 1 ∧ AllMembers (·.nesting ≤ inner) members := by
  cases depth with
  | zero => exact absurd fits (by simp [nesting])
  | succ inner => exact ⟨inner, rfl, nesting_object_le_iff.mp fits⟩

theorem areSound_outlines_iff {items : List Json} {depth : Nat} :
    Outline.areSound depth (outlines items) = true ↔
      ∀ item ∈ items, item.outline.isSound depth = true := by
  induction items with
  | nil => simp [outlines, Outline.areSound]
  | cons item rest ih => simp [outlines, Outline.areSound, ih]

theorem membersAreSound_outlines_iff {members : List (String × Json)} {depth : Nat} :
    Outline.membersAreSound depth (memberOutlines members) = true ↔
      AllMembers (·.outline.isSound depth = true) members := by
  unfold AllMembers
  induction members with
  | nil => simp [memberOutlines, Outline.membersAreSound]
  | cons member rest ih => simp [memberOutlines, Outline.membersAreSound, ih]

theorem isSound_outline {value : Json} {depth : Nat} (numberless : value.isNumberless = true)
    (fits : value.nesting ≤ depth) : value.outline.isSound depth = true := by
  induction value using Json.induction generalizing depth with
  | null => rfl
  | bool value => rfl
  | number value => cases numberless
  | string text => rfl
  | array items ih =>
      obtain ⟨inner, rfl, fitsInside⟩ := exists_depth_of_array fits
      have sound := areSound_outlines_iff.mpr fun item member =>
        ih item member (isNumberless_array_iff.mp numberless item member) (fitsInside item member)
      simp [outline, Outline.isSound, sound]
  | object members ih =>
      obtain ⟨inner, rfl, fitsInside⟩ := exists_depth_of_object fits
      have sound := membersAreSound_outlines_iff.mpr fun member isMember =>
        ih member isMember (isNumberless_object_iff.mp numberless member isMember)
          (fitsInside member isMember)
      simp [outline, Outline.isSound, sound]

theorem isComplete_outline (value : Json) : value.outline.isComplete = true := by
  induction value using Json.induction with
  | null => rfl
  | bool value => rfl
  | number value => rfl
  | string text => rfl
  | array items ih =>
      have complete : Outline.areComplete (outlines items) = true := by
        induction items with
        | nil => rfl
        | cons item rest later =>
            rw [outlines, Outline.areComplete, ih item List.mem_cons_self,
              later fun other member => ih other (.tail _ member)]
            rfl
      rw [outline, Outline.isComplete, complete]
      rfl
  | object members ih =>
      have complete : Outline.membersAreComplete (memberOutlines members) = true := by
        induction members with
        | nil => rfl
        | cons member rest later =>
            rw [memberOutlines, Outline.membersAreComplete, ih member List.mem_cons_self,
              later fun other isMember => ih other (.tail _ isMember)]
            rfl
      rw [outline, Outline.isComplete, complete]
      rfl

end Json

end TemplateMarkup
