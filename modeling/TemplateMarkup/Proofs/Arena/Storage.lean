import Mathlib.Data.List.Nodup
import TemplateMarkup.Proofs.Arena.Basic

/-!
# Trees in an arena

What it means that an arena holds a tree, and that it holds an open element with everything around
it.  Both come with the list of all places that they take.  Whatever happens at other places leaves
them alone, so two parts of an arena do not disturb each other as long as they have no place in
common.

Children are at later places than their parents, so building a tree comes to an end.
-/

namespace TemplateMarkup

namespace Arena

/-- The children of an element are trees in the arena.  The last argument lists their places. -/
inductive Stores (slots : List Slot) : Nat → List Child → List Node → List Nat → Prop where
  | nil (parent : Nat) : Stores slots parent [] [] []
  | text {parent : Nat} {rest : List Child} {nodes : List Node} {ids : List Nat} (content : String)
      (position : Position) (later : Stores slots parent rest nodes ids) :
      Stores slots parent (.text content position :: rest) (.text content position :: nodes) ids
  | element {parent id : Nat} {tag : Tag} {children rest : List Child} {inner nodes : List Node}
      {inside ids : List Nat} (below : parent < id) (isHere : slots[id]? = some (.of tag children))
      (within : Stores slots id children inner inside) (later : Stores slots parent rest nodes ids) :
      Stores slots parent (.element id :: rest) (.element tag inner :: nodes) (id :: (inside ++ ids))

/-- The open elements of a scope, innermost first, the root last.  The last child of each is the one
that is open inside of it, and its other children are trees. -/
inductive StoresOpen (slots : List Slot) :
    Option Nat → List Nat → List OpenElement → List Nat → Prop where
  | nil (inner : Option Nat) : StoresOpen slots inner [] [] []
  | cons {inner : Option Nat} {id : Nat} {tag : Tag} {children : List Child} {latest : List Node}
      {inside ids : List Nat} {outer : List Nat} {around : List OpenElement}
      (above : ∀ child ∈ inner, id < child)
      (isHere : slots[id]? = some (.of tag (children ++ (inner.map .element).toList)))
      (within : Stores slots id children latest.reverse inside)
      (later : StoresOpen slots (some id) outer around ids) :
      StoresOpen slots inner (id :: outer) (⟨tag, latest⟩ :: around) (id :: (inside ++ ids))

/-- The elements among the children of an element with another one open inside. -/
theorem childIds_open (tag : Tag) (children : List Child) (inner : Option Nat) :
    (Slot.of tag (children ++ (inner.map .element).toList)).childIds =
      children.filterMap Child.id? ++ inner.toList := by
  rw [Slot.childIds, Slot.of, List.filterMap_append]
  cases inner <;> rfl

section

variable {slots slots' : List Slot} {parent : Nat} {children more : List Child}
variable {nodes later : List Node} {ids ids' : List Nat} {inner : Option Nat} {outer : List Nat}
variable {around : List OpenElement}

theorem Stores.congr (stores : Stores slots parent children nodes ids)
    (same : ∀ id ∈ ids, slots'[id]? = slots[id]?) : Stores slots' parent children nodes ids := by
  induction stores with
  | nil parent => exact .nil parent
  | text content position _ ih => exact .text content position (ih same)
  | element below isHere _ _ ihWithin ihLater =>
      refine .element below ((same _ List.mem_cons_self).trans isHere)
        (ihWithin fun id isInside => same id ?_) (ihLater fun id isLater => same id ?_)
      · exact List.mem_cons_of_mem _ (List.mem_append_left _ isInside)
      · exact List.mem_cons_of_mem _ (List.mem_append_right _ isLater)

theorem StoresOpen.congr (stores : StoresOpen slots inner outer around ids)
    (same : ∀ id ∈ ids, slots'[id]? = slots[id]?) : StoresOpen slots' inner outer around ids := by
  induction stores with
  | nil inner => exact .nil inner
  | cons above isHere within _ ih =>
      refine .cons above ((same _ List.mem_cons_self).trans isHere)
        (within.congr fun id isInside => same id ?_) (ih fun id isLater => same id ?_)
      · exact List.mem_cons_of_mem _ (List.mem_append_left _ isInside)
      · exact List.mem_cons_of_mem _ (List.mem_append_right _ isLater)

theorem Stores.append (stores : Stores slots parent children nodes ids)
    (stores' : Stores slots parent more later ids') :
    Stores slots parent (children ++ more) (nodes ++ later) (ids ++ ids') := by
  induction stores with
  | nil => exact stores'
  | text content position _ ih => exact .text content position (ih stores')
  | element below isHere within _ _ ih =>
      rw [List.cons_append, List.cons_append, List.cons_append, List.append_assoc]
      exact .element below isHere within (ih stores')

theorem Stores.isEmpty_eq (stores : Stores slots parent children nodes ids) :
    children.isEmpty = nodes.isEmpty := by
  cases stores <;> rfl

theorem StoresOpen.mem_of_mem (stores : StoresOpen slots inner outer around ids) {id : Nat}
    (isOpen : id ∈ outer) : id ∈ ids := by
  induction stores with
  | nil => cases isOpen
  | cons _ _ _ _ ih =>
      rcases List.mem_cons.mp isOpen with rfl | isOuter
      · exact List.mem_cons_self
      · exact List.mem_cons_of_mem _ (List.mem_append_right _ (ih isOuter))

theorem StoresOpen.map_tagName (stores : StoresOpen slots inner outer around ids) :
    outer.map (tagNameAt slots) = around.map (·.tag.name) := by
  induction stores with
  | nil => rfl
  | cons _ isHere _ _ ih =>
      rw [List.map_cons, List.map_cons, ih, tagNameAt, isHere]
      rfl

/-- The numbers of the elements among the children of the element at a place. -/
def childIdsAt (slots : List Slot) (id : Nat) : List Nat := (slots[id]?).elim [] Slot.childIds

/-- The elements at some places are there, and their children are at later places. -/
def Holds (slots : List Slot) (ids : List Nat) : Prop :=
  ∀ id ∈ ids, ∃ slot, slots[id]? = some slot ∧ slot.isTaken = false ∧
    ∀ child ∈ slot.childIds, id < child

theorem Holds.lt_length (holds : Holds slots ids) : ∀ id ∈ ids, id < slots.length := by
  intro id isHere
  obtain ⟨slot, isSlot, -⟩ := holds id isHere
  exact (List.getElem?_eq_some_iff.mp isSlot).1

theorem Stores.lt_of_mem (stores : Stores slots parent children nodes ids) :
    ∀ child ∈ children.filterMap Child.id?, parent < child := by
  induction stores with
  | nil => exact nofun
  | text _ _ _ ih => exact ih
  | element below _ _ _ _ ih =>
      intro child isChild
      rcases List.mem_cons.mp isChild with rfl | isLater
      · exact below
      · exact ih child isLater

theorem Stores.holds (stores : Stores slots parent children nodes ids) : Holds slots ids := by
  induction stores with
  | nil => exact nofun
  | text _ _ _ ih => exact ih
  | element _ isHere within _ ihWithin ihLater =>
      refine List.forall_mem_cons.mpr ⟨⟨_, isHere, rfl, within.lt_of_mem⟩, ?_⟩
      exact List.forall_mem_append.mpr ⟨ihWithin, ihLater⟩

theorem StoresOpen.holds (stores : StoresOpen slots inner outer around ids) : Holds slots ids := by
  induction stores with
  | nil => exact nofun
  | @cons inner id tag children latest inside ids outer around above isHere within _ ih =>
      refine List.forall_mem_cons.mpr ⟨⟨_, isHere, rfl, fun child isChild => ?_⟩, ?_⟩
      · rw [childIds_open] at isChild
        rcases List.mem_append.mp isChild with isChild | isInner
        · exact within.lt_of_mem child isChild
        · exact above child (Option.mem_toList.mp isInner)
      · exact List.forall_mem_append.mpr ⟨within.holds, ih⟩

/-- Every place but those of the outermost trees is the place of a child, and of one child only. -/
theorem Stores.perm (stores : Stores slots parent children nodes ids) :
    (ids.flatMap (childIdsAt slots) ++ children.filterMap Child.id?).Perm ids := by
  induction stores with
  | nil => exact .refl _
  | text _ _ _ ih => exact ih
  | @element parent id tag children rest inner nodes inside ids _ isHere _ _ ihWithin ihLater =>
      have isChild : childIdsAt slots id = children.filterMap Child.id? := by
        rw [childIdsAt, isHere]
        rfl
      rw [List.perm_iff_count] at ihWithin ihLater ⊢
      intro place
      have within := ihWithin place
      have later := ihLater place
      simp only [List.flatMap_cons, List.flatMap_append, List.count_append, List.count_cons,
        List.filterMap_cons, Child.id?, isChild] at within later ⊢
      omega

/-- The same for what is open: of these places, only that of the outermost element is nobody's
child. -/
theorem StoresOpen.perm (stores : StoresOpen slots inner outer around ids) :
    (ids.flatMap (childIdsAt slots) ++ ((outer.getLast?).or inner).toList).Perm
      (inner.toList ++ ids) := by
  induction stores with
  | nil inner => simp
  | @cons inner id tag children latest inside ids outer around _ isHere within _ ih =>
      have isChild : childIdsAt slots id = children.filterMap Child.id? ++ inner.toList := by
        rw [childIdsAt, isHere]
        exact childIds_open tag children inner
      have outermost : ((id :: outer).getLast?).or inner = outer.getLast?.or (some id) := by
        cases outer with
        | nil => rfl
        | cons next outer =>
            rw [List.getLast?_cons_cons, List.getLast?_eq_some_getLast (List.cons_ne_nil _ _)]
            rfl
      have within := within.perm
      rw [List.perm_iff_count] at within ih ⊢
      intro place
      have within := within place
      have later := ih place
      simp only [List.flatMap_cons, List.flatMap_append, List.count_append, List.count_cons,
        isChild, outermost, Option.toList_some, List.count_nil] at within later ⊢
      omega

/-- Move the elements at some places out. -/
def vacate (slots : List Slot) (ids : List Nat) : List Slot :=
  ids.foldl (fun slots id => slots.set id .vacated) slots

theorem vacate_cons (slots : List Slot) (id : Nat) (rest : List Nat) :
    vacate slots (id :: rest) = vacate (slots.set id .vacated) rest :=
  rfl

theorem vacate_append (slots : List Slot) (first later : List Nat) :
    vacate slots (first ++ later) = vacate (vacate slots first) later :=
  List.foldl_append

theorem getElem?_vacate_of_not_mem {id : Nat} (notHere : id ∉ ids) :
    (vacate slots ids)[id]? = slots[id]? := by
  induction ids generalizing slots with
  | nil => rfl
  | cons first rest ih =>
      obtain ⟨different, notLater⟩ := not_or.mp (List.mem_cons.not.mp notHere)
      rw [vacate_cons, ih notLater, List.getElem?_set_ne (Ne.symm different)]

theorem getElem?_vacate_of_mem {id : Nat} (isHere : id ∈ ids) (inside : id < slots.length) :
    (vacate slots ids)[id]? = some .vacated := by
  induction ids generalizing slots with
  | nil => cases isHere
  | cons first rest ih =>
      rw [vacate_cons]
      by_cases isLater : id ∈ rest
      · exact ih isLater (by rwa [List.length_set])
      · obtain rfl := (List.mem_cons.mp isHere).resolve_right isLater
        rw [getElem?_vacate_of_not_mem isLater, List.getElem?_set_self inside]

theorem getElem?_set_of_mem {id other : Nat} {slot : Slot} (notHere : id ∉ ids)
    (isHere : other ∈ ids) :
    (slots.set id slot)[other]? = slots[other]? :=
  List.getElem?_set_ne fun (equal : id = other) => notHere (equal ▸ isHere)

/-- Trees can be built, even if something else has been moved out before. -/
theorem Stores.buildChildren?_eq (stores : Stores slots parent children nodes ids)
    (distinct : ids.Nodup) {bound : Nat} (suffices' : slots.length ≤ parent + 1 + bound)
    (same : ∀ id ∈ ids, slots'[id]? = slots[id]?) :
    buildChildren? (build? bound) children slots' = some (nodes, vacate slots' ids) := by
  induction stores generalizing bound slots' with
  | nil => rfl
  | text content position _ ih =>
      rw [buildChildren?, ih distinct suffices' same]
      rfl
  | @element parent id tag children rest inner nodes inside ids below isHere within later
        ihWithin ihLater =>
      have inArena : id < slots.length := (List.getElem?_eq_some_iff.mp isHere).1
      -- The child is later than its parent, so what is left of the bound suffices for its own children.
      obtain ⟨bound, rfl⟩ : ∃ less, bound = less + 1 := ⟨bound - 1, by omega⟩
      obtain ⟨notBelow, distinct⟩ := List.nodup_cons.mp distinct
      obtain ⟨distinctInside, distinctLater, apart⟩ := List.nodup_append.mp distinct
      have isHere' : slots'[id]? = some (.of tag children) :=
        (same id List.mem_cons_self).trans isHere
      have built : build? (bound + 1) id slots' =
          some (⟨tag, inner⟩, vacate (slots'.set id .vacated) inside) := by
        have sameInside : ∀ other ∈ inside, (slots'.set id .vacated)[other]? = slots[other]? := by
          intro other isInside
          have isBelow := List.mem_append_left ids isInside
          rw [getElem?_set_of_mem notBelow isBelow]
          exact same other (List.mem_cons_of_mem _ isBelow)
        rw [build?, isHere', Option.bind_eq_bind, Option.bind_some, Slot.of,
          ihWithin distinctInside (by omega) sameInside]
        rfl
      have sameLater : ∀ other ∈ ids,
          (vacate (slots'.set id .vacated) inside)[other]? = slots[other]? := by
        intro other isLater
        have isBelow := List.mem_append_right inside isLater
        rw [getElem?_vacate_of_not_mem fun isInside => apart other isInside other isLater rfl,
          getElem?_set_of_mem notBelow isBelow]
        exact same other (List.mem_cons_of_mem _ isBelow)
      rw [buildChildren?, built, Option.bind_eq_bind, Option.bind_some]
      dsimp only
      rw [ihLater distinctLater (by omega) sameLater]
      rw [vacate_cons, vacate_append]
      rfl

/-- An element with nothing open inside can be built. -/
theorem StoresOpen.build?_eq {root : Nat} {element : OpenElement}
    (stores : StoresOpen slots none [root] [element] ids) (distinct : ids.Nodup) :
    build? slots.length root slots = some (element.toElement, vacate slots ids) := by
  cases stores with
  | @cons _ _ tag children latest inside ids _ _ _ isHere within later =>
      cases later
      have inArena : root < slots.length := (List.getElem?_eq_some_iff.mp isHere).1
      obtain ⟨bound, isBound⟩ : ∃ less, slots.length = less + 1 := ⟨slots.length - 1, by omega⟩
      rw [List.append_nil] at distinct ⊢
      obtain ⟨notInside, distinct⟩ := List.nodup_cons.mp distinct
      have sameInside : ∀ other ∈ inside, (slots.set root .vacated)[other]? = slots[other]? :=
        fun other isInside => getElem?_set_of_mem notInside isInside
      rw [isBound, build?, isHere, Option.bind_eq_bind, Option.bind_some, Option.map_none,
        Option.toList_none, List.append_nil, Slot.of,
        within.buildChildren?_eq distinct (by omega) sameInside]
      rfl

/-- A new node becomes the last child of the innermost element. -/
theorem StoresOpen.append {id : Nat} {element : OpenElement} {child : Child} {node : Node}
    {new : List Nat} (stores : StoresOpen slots none (id :: outer) (element :: around) ids)
    (distinct : ids.Nodup) (grown : slots'[id]? = slots[id]?.map (Slot.add child))
    (same : ∀ other ∈ ids, other ≠ id → slots'[other]? = slots[other]?)
    (fresh : Stores slots' id [child] [node] new) :
    ∃ ids', ids'.Perm (ids ++ new) ∧
      StoresOpen slots' none (id :: outer) (element.append node :: around) ids' := by
  cases stores with
  | @cons _ _ tag children latest inside ids _ _ _ isHere within later =>
      obtain ⟨notBelow, -⟩ := List.nodup_cons.mp distinct
      have sameBelow : ∀ other ∈ inside ++ ids, slots'[other]? = slots[other]? :=
        fun other isBelow => same other (List.mem_cons_of_mem _ isBelow) fun equal =>
          notBelow (equal ▸ isBelow)
      have within' : Stores slots' id (children ++ [child]) (node :: latest).reverse
          (inside ++ new) := by
        rw [List.reverse_cons]
        refine (within.congr fun other isInside => ?_).append fresh
        exact sameBelow other (List.mem_append_left _ isInside)
      have isHere' : slots'[id]? = some (.of tag (children ++ [child] ++ [])) := by
        rw [grown, isHere]
        simp [Slot.add, Slot.of]
      refine ⟨_, ?_, .cons nofun isHere' within' (later.congr fun other isLater =>
        sameBelow other (List.mem_append_right _ isLater))⟩
      rw [List.cons_append, List.perm_cons, List.append_assoc, List.append_assoc]
      exact List.perm_append_comm.append_left inside

/-- A new element is opened inside the innermost one. -/
theorem StoresOpen.push {id new : Nat} {tag : Tag}
    (stores : StoresOpen slots none (id :: outer) around ids)
    (distinct : ids.Nodup) (below : id < new)
    (grown : slots'[id]? = slots[id]?.map (Slot.add (.element new)))
    (same : ∀ other ∈ ids, other ≠ id → slots'[other]? = slots[other]?)
    (fresh : slots'[new]? = some (.of tag [])) :
    StoresOpen slots' none (new :: id :: outer) (.ofTag tag :: around) (new :: ids) := by
  cases stores with
  | @cons _ _ tag' children latest inside ids _ _ _ isHere within later =>
      obtain ⟨notBelow, -⟩ := List.nodup_cons.mp distinct
      have sameBelow : ∀ other ∈ inside ++ ids, slots'[other]? = slots[other]? :=
        fun other isBelow => same other (List.mem_cons_of_mem _ isBelow) fun equal =>
          notBelow (equal ▸ isBelow)
      have isHere' : slots'[id]? = some (.of tag' (children ++ [.element new])) := by
        rw [grown, isHere]
        simp [Slot.add, Slot.of]
      have above : ∀ child ∈ some new, id < child :=
        fun child isChild => Option.some.inj isChild ▸ below
      have noChild : ∀ child ∈ (none : Option Nat), new < child := nofun
      have nothing : Stores slots' new [] (List.reverse []) [] := .nil new
      refine .cons noChild fresh nothing (.cons above isHere' ?_ ?_)
      · exact within.congr fun other isInside => sameBelow other (List.mem_append_left _ isInside)
      · exact later.congr fun other isLater => sameBelow other (List.mem_append_right _ isLater)

/-- An open element becomes a tree as soon as it is no longer counted among the open ones. -/
theorem StoresOpen.close {id holder : Nat} {element holding : OpenElement}
    (stores : StoresOpen slots none (id :: holder :: outer) (element :: holding :: around) ids) :
    ∃ ids', ids'.Perm ids ∧ StoresOpen slots none (holder :: outer)
      (holding.append element.toElement.toNode :: around) ids' := by
  cases stores with
  | @cons _ _ tag children latest inside _ _ _ _ isHere within later =>
      cases later with
      | @cons _ _ tag' children' latest' inside' ids _ _ above isHere' within' later =>
          have below : holder < id := above id rfl
          have isHere : slots[id]? = some (.of tag children) := by simpa using isHere
          have whole := within'.append (.element below isHere within (.nil holder))
          rw [← List.reverse_cons] at whole
          refine ⟨_, ?_, .cons nofun (by simpa using isHere') whole later⟩
          rw [List.perm_iff_count]
          intro place
          simp only [List.count_append, List.count_cons, List.count_nil]
          omega

end

/-- Exactly the elements at some places have not been moved out. -/
structure Occupies (slots : List Slot) (ids : List Nat) : Prop where
  distinct : ids.Nodup
  covers : ∀ {id slot}, slots[id]? = some slot → id ∈ ids ∨ slot = .vacated

namespace Occupies

variable {slots slots' : List Slot} {ids inside inside' outside moved : List Nat}

/-- Some elements are changed, and new ones come after all others. -/
theorem replace (occupies : Occupies slots (inside ++ outside)) {count : Nat}
    (inArena : ∀ id ∈ inside ++ outside, id < slots.length)
    (perm : inside'.Perm (inside ++ List.range' slots.length count))
    (length : slots'.length = slots.length + count)
    (same : ∀ id < slots.length, id ∉ inside → slots'[id]? = slots[id]?) :
    Occupies slots' (inside' ++ outside) := by
  have perm' : (inside' ++ outside).Perm (inside ++ outside ++ List.range' slots.length count) := by
    refine (perm.append_right outside).trans ?_
    rw [List.append_assoc, List.append_assoc]
    exact List.perm_append_comm.append_left inside
  constructor
  · refine perm'.nodup_iff.mpr (List.nodup_append.mpr ⟨occupies.distinct, List.nodup_range', ?_⟩)
    intro id isHere other isNew equal
    have before := inArena id isHere
    have after := (List.mem_range'_1.mp isNew).1
    omega
  · intro id slot isSlot
    have inSlots := (List.getElem?_eq_some_iff.mp isSlot).1
    rw [perm'.mem_iff, List.mem_append, List.mem_range'_1]
    by_cases isOld : id < slots.length
    · by_cases isInside : id ∈ inside
      · exact .inl (.inl (List.mem_append_left _ isInside))
      · exact (occupies.covers ((same id isOld isInside).symm.trans isSlot)).imp_left .inl
    · exact .inl (.inr ⟨by omega, by omega⟩)

theorem append (occupies : Occupies slots ids) (inArena : ∀ id ∈ ids, id < slots.length)
    (slot : Slot) : Occupies (slots ++ [slot]) (slots.length :: ids) := by
  have isNew : [slots.length].Perm ([] ++ List.range' slots.length 1) := .refl _
  have occupies : Occupies slots ([] ++ ids) := occupies
  exact occupies.replace inArena isNew List.length_append
    fun id inside _ => List.getElem?_append_left inside

theorem vacate (occupies : Occupies slots (inside ++ outside))
    (inArena : ∀ id ∈ inside ++ outside, id < slots.length) (perm : moved.Perm inside) :
    Occupies (vacate slots moved) outside where
  distinct := (List.nodup_append.mp occupies.distinct).2.1
  covers {id slot} isSlot := by
    by_cases isMoved : id ∈ moved
    · have isInside := List.mem_append_left outside (perm.mem_iff.mp isMoved)
      rw [getElem?_vacate_of_mem isMoved (inArena id isInside)] at isSlot
      exact .inr (Option.some.inj isSlot).symm
    · rw [getElem?_vacate_of_not_mem isMoved] at isSlot
      refine (occupies.covers isSlot).imp_left fun isHere => ?_
      exact (List.mem_append.mp isHere).resolve_left fun isInside =>
        isMoved (perm.mem_iff.mpr isInside)

end Occupies

end Arena

end TemplateMarkup
