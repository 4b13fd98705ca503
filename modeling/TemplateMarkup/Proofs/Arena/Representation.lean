import TemplateMarkup.Proofs.Arena.Heads
import TemplateMarkup.Proofs.Arena.Storage

/-!
# Scopes in an arena

A scope in an arena stands for a scope with a stack of open elements if the arena holds these
elements with all their children.  Both go through the same changes: what is done to the stack is
done to one or two places of the arena, and the places of the other scopes are left alone.
-/

namespace TemplateMarkup

namespace Arena

/-- A scope in an arena stands for a scope with a stack of open elements.  The last argument lists
the places of its elements. -/
structure Scope.Represents (slots : List Slot) (scope : Scope) (original : TemplateMarkup.Scope)
    (ids : List Nat) : Prop where
  stores : StoresOpen slots none scope.elements original.elements ids
  hasDefaultSlot : scope.hasDefaultSlot = original.hasDefaultSlot
  namedSlots : scope.namedSlots = original.namedSlots
  propTypes : scope.propTypes = original.propTypes

theorem Scope.exists_elements_eq (scope : Scope) :
    ∃ outer, scope.elements = scope.parent :: outer := by
  rcases scope with ⟨root, _ | ⟨id, outer⟩, hasDefaultSlot, namedSlots, propTypes⟩
  · exact ⟨[], rfl⟩
  · exact ⟨outer ++ [root], rfl⟩

section

variable {slots slots' : List Slot} {scope : Scope} {original : TemplateMarkup.Scope}
variable {ids : List Nat}

namespace Scope.Represents

theorem congr (represents : scope.Represents slots original ids)
    (same : ∀ id ∈ ids, slots'[id]? = slots[id]?) : scope.Represents slots' original ids :=
  { represents with stores := represents.stores.congr same }

theorem ofRoot {root : Nat} {tag : Tag} (isHere : slots[root]? = some (.of tag [])) :
    (Scope.ofRoot root).Represents slots (.ofRoot tag) [root] where
  stores := by
    have noChild : ∀ child ∈ (none : Option Nat), root < child := nofun
    have nothing : Stores slots root [] (List.reverse []) [] := .nil root
    exact .cons noChild isHere nothing (.nil (some root))
  hasDefaultSlot := rfl
  namedSlots := rfl
  propTypes := rfl

/-- The element that a new node goes to is at its place. -/
theorem exists_stores (represents : scope.Represents slots original ids) :
    ∃ outer around, scope.elements = scope.parent :: outer ∧
      original.elements = original.innermost :: around ∧
      StoresOpen slots none (scope.parent :: outer) (original.innermost :: around) ids := by
  obtain ⟨outer, isParent⟩ := scope.exists_elements_eq
  obtain ⟨around, isInnermost⟩ := original.exists_elements_eq
  exact ⟨outer, around, isParent, isInnermost, isParent ▸ isInnermost ▸ represents.stores⟩

theorem parent_mem (represents : scope.Represents slots original ids) : scope.parent ∈ ids := by
  obtain ⟨outer, around, -, -, stores⟩ := represents.exists_stores
  exact stores.mem_of_mem List.mem_cons_self

theorem isEmpty_eq (represents : scope.Represents slots original ids) :
    (slots[scope.parent]?.map (·.children.isEmpty)).getD true = original.innermost.latest.isEmpty := by
  obtain ⟨outer, around, -, -, stores⟩ := represents.exists_stores
  generalize original.innermost = element at stores
  cases stores with
  | @cons _ _ tag children latest _ _ _ _ _ isHere within _ =>
      rw [isHere, ← List.isEmpty_reverse, ← within.isEmpty_eq]
      simp [Slot.of]

/-- The open elements have the same names. -/
theorem map_tagName (represents : scope.Represents slots original ids) :
    scope.opened.map (tagNameAt slots) = original.nested.map (·.tag.name) := by
  have names := represents.stores.map_tagName
  rw [elements, TemplateMarkup.Scope.elements, List.map_append, List.map_append] at names
  exact List.append_inj_left' names rfl

theorem length_opened (represents : scope.Represents slots original ids) :
    scope.opened.length = original.nested.length := by
  have names := congrArg List.length represents.map_tagName
  rwa [List.length_map, List.length_map] at names

theorem recordSlot (represents : scope.Represents slots original ids) (tag : Tag) :
    (scope.recordSlot tag).Represents slots (original.recordSlot tag) ids := by
  unfold Scope.recordSlot TemplateMarkup.Scope.recordSlot
  cases tag.nonemptyValue? "name" with
  | some name =>
      exact { represents with namedSlots := congrArg (NameSet.insert · name) represents.namedSlots }
  | none => exact { represents with hasDefaultSlot := rfl }

theorem append (represents : scope.Represents slots original ids) (distinct : ids.Nodup)
    {child : Child} {node : Node} {new : List Nat}
    (grown : slots'[scope.parent]? = slots[scope.parent]?.map (Slot.add child))
    (same : ∀ id ∈ ids, id ≠ scope.parent → slots'[id]? = slots[id]?)
    (fresh : Stores slots' scope.parent [child] [node] new) :
    ∃ ids', ids'.Perm (ids ++ new) ∧ scope.Represents slots' (original.append node) ids' := by
  obtain ⟨outer, around, isParent, isInnermost, stores⟩ := represents.exists_stores
  obtain ⟨ids', perm, stores'⟩ := stores.append distinct grown same fresh
  rw [← original.elements_append isInnermost, ← isParent] at stores'
  obtain ⟨hasDefaultSlot, namedSlots, propTypes⟩ := original.flags_append node
  exact ⟨ids', perm, stores', represents.hasDefaultSlot.trans hasDefaultSlot.symm,
    represents.namedSlots.trans namedSlots.symm, represents.propTypes.trans propTypes.symm⟩

theorem push (represents : scope.Represents slots original ids) (distinct : ids.Nodup) {new : Nat}
    {tag : Tag} (below : scope.parent < new)
    (grown : slots'[scope.parent]? = slots[scope.parent]?.map (Slot.add (.element new)))
    (same : ∀ id ∈ ids, id ≠ scope.parent → slots'[id]? = slots[id]?)
    (fresh : slots'[new]? = some (.of tag [])) :
    (scope.push new).Represents slots' (original.push tag) (new :: ids) := by
  obtain ⟨outer, around, isParent, isInnermost, stores⟩ := represents.exists_stores
  have stores' := stores.push distinct below grown same fresh
  rw [← isParent, ← isInnermost] at stores'
  exact { represents with stores := stores' }

theorem closeInnermost (represents : scope.Represents slots original ids) :
    ∃ ids', ids'.Perm ids ∧
      (Scope.closeMany 1 scope).Represents slots original.closeInnermost ids' := by
  have lengths := represents.length_opened
  cases isOpen : original.nested with
  | nil =>
      have noneOpen : scope.opened = [] := by
        rwa [isOpen, List.length_nil, List.length_eq_zero_iff] at lengths
      have same : Scope.closeMany 1 scope = scope := by
        rcases scope with ⟨root, opened, hasDefaultSlot, namedSlots, propTypes⟩
        cases noneOpen
        rfl
      rw [original.closeInnermost_of_nil isOpen, same]
      exact ⟨ids, .refl ids, represents⟩
  | cons element nested =>
      obtain ⟨holding, around, before, after⟩ := original.elements_closeInnermost isOpen
      obtain ⟨holder, outer, elements, closed⟩ : ∃ holder outer,
          scope.elements = scope.parent :: holder :: outer ∧
            (Scope.closeMany 1 scope).elements = holder :: outer := by
        rcases scope with
          ⟨root, _ | ⟨id, _ | ⟨holder, opened⟩⟩, hasDefaultSlot, namedSlots, propTypes⟩
        · rw [isOpen] at lengths
          cases lengths
        · exact ⟨root, [], rfl, rfl⟩
        · exact ⟨holder, opened ++ [root], rfl, rfl⟩
      obtain ⟨ids', perm, stores⟩ := (elements ▸ before ▸ represents.stores).close
      rw [← after, ← closed] at stores
      obtain ⟨hasDefaultSlot, namedSlots, propTypes⟩ := original.flags_closeInnermost
      exact ⟨ids', perm, stores, represents.hasDefaultSlot.trans hasDefaultSlot.symm,
        represents.namedSlots.trans namedSlots.symm, represents.propTypes.trans propTypes.symm⟩

theorem closeMany (represents : scope.Represents slots original ids) (count : Nat) :
    ∃ ids', ids'.Perm ids ∧
      (scope.closeMany count).Represents slots (original.closeMany count) ids' := by
  induction count generalizing scope original ids with
  | zero => exact ⟨ids, .refl ids, represents⟩
  | succ count ih =>
      obtain ⟨middle, perm, closed⟩ := represents.closeInnermost
      obtain ⟨ids', perm', closed'⟩ := ih closed
      have inSteps : (Scope.closeMany 1 scope).closeMany count = scope.closeMany (count + 1) := by
        simp [Scope.closeMany]
      exact ⟨ids', perm'.trans perm, inSteps ▸ closed'⟩

/-- A whole scope can be built, and it becomes the same component. -/
theorem build?_eq (represents : scope.Represents slots original ids) (distinct : ids.Nodup) :
    ∃ ids', ids'.Perm ids ∧
      build? slots.length scope.root slots = some (original.toComponent.root, vacate slots ids') ∧
      scope.toComponent original.toComponent.root = original.toComponent := by
  obtain ⟨ids', perm, closed⟩ := represents.closeMany original.nested.length
  have root : (scope.closeMany original.nested.length).elements = [scope.root] := by
    rw [elements, Scope.closeMany, ← represents.length_opened, List.drop_length]
    rfl
  have element : (original.closeMany original.nested.length).elements =
      [(original.closeMany original.nested.length).root] := by
    have isClosed : (original.closeMany original.nested.length).nested = [] := by
      rw [← List.length_eq_zero_iff, TemplateMarkup.Scope.length_nested_closeMany, Nat.sub_self]
    rw [TemplateMarkup.Scope.elements, isClosed]
    rfl
  have built := (root ▸ element ▸ closed.stores).build?_eq (perm.nodup_iff.mpr distinct)
  refine ⟨ids', perm, built, ?_⟩
  rw [Scope.toComponent, TemplateMarkup.Scope.toComponent, ← closed.hasDefaultSlot,
    ← closed.namedSlots, ← closed.propTypes]
  rfl

end Scope.Represents

end

/-- The scope of the file's own markup and those of the open inline components stand for others.
The last argument lists all places of their elements. -/
inductive ScopesRepresent (slots : List Slot) (main : Scope) (original : TemplateMarkup.Scope) :
    List (String × Scope) → List (String × TemplateMarkup.Scope) → List Nat → Prop where
  | main {ids : List Nat} (represents : main.Represents slots original ids) :
      ScopesRepresent slots main original [] [] ids
  | inline {scope : Scope} {original' : TemplateMarkup.Scope} {inside ids : List Nat}
      {inline : List (String × Scope)} {inline' : List (String × TemplateMarkup.Scope)} (name : String)
      (represents : scope.Represents slots original' inside)
      (later : ScopesRepresent slots main original inline inline' ids) :
      ScopesRepresent slots main original ((name, scope) :: inline) ((name, original') :: inline')
        (inside ++ ids)

namespace ScopesRepresent

variable {slots slots' : List Slot} {main : Scope} {original : TemplateMarkup.Scope}
variable {inline : List (String × Scope)} {inline' : List (String × TemplateMarkup.Scope)}
variable {ids : List Nat}

theorem congr (represent : ScopesRepresent slots main original inline inline' ids)
    (same : ∀ id ∈ ids, slots'[id]? = slots[id]?) :
    ScopesRepresent slots' main original inline inline' ids := by
  induction represent with
  | main represents => exact .main (represents.congr same)
  | inline name represents _ ih =>
      refine .inline name (represents.congr fun id isHere => same id ?_)
        (ih fun id isHere => same id ?_)
      · exact List.mem_append_left _ isHere
      · exact List.mem_append_right _ isHere

theorem map_fst (represent : ScopesRepresent slots main original inline inline' ids) :
    inline.map Prod.fst = inline'.map Prod.fst := by
  induction represent with
  | main => rfl
  | inline name _ _ ih => rw [List.map_cons, List.map_cons, ih]

theorem length_inline (represent : ScopesRepresent slots main original inline inline' ids) :
    inline.length = inline'.length := by
  have names := congrArg List.length represent.map_fst
  rwa [List.length_map, List.length_map] at names

/-- Each scope has its own part of the places. -/
theorem exists_represents (represent : ScopesRepresent slots main original inline inline' ids)
    {scope : Scope} (isOpen : scope ∈ main :: inline.map Prod.snd) :
    ∃ original inside, scope.Represents slots original inside ∧ inside.Sublist ids := by
  induction represent with
  | @main ids represents =>
      obtain rfl := List.mem_singleton.mp isOpen
      exact ⟨original, ids, represents, .refl ids⟩
  | @inline here original' inside ids inline inline' name represents later ih =>
      rw [List.map_cons, List.mem_cons, List.mem_cons, or_left_comm, ← List.mem_cons] at isOpen
      rcases isOpen with rfl | isOuter
      · exact ⟨original', inside, represents, List.sublist_append_left _ _⟩
      · obtain ⟨original', inside', represents', isPart⟩ := ih isOuter
        exact ⟨original', inside', represents', isPart.trans (List.sublist_append_right _ _)⟩

theorem holds (represent : ScopesRepresent slots main original inline inline' ids) :
    Holds slots ids := by
  induction represent with
  | main represents => exact represents.stores.holds
  | inline name represents _ ih => exact List.forall_mem_append.mpr ⟨represents.stores.holds, ih⟩

/-- Of all these places, only those of the roots are nobody's children. -/
theorem perm (represent : ScopesRepresent slots main original inline inline' ids) :
    (ids.flatMap (childIdsAt slots) ++ (main :: inline.map Prod.snd).map Scope.root).Perm ids := by
  have alone {scope : Scope} {original : TemplateMarkup.Scope} {ids : List Nat}
      (represents : scope.Represents slots original ids) :
      (ids.flatMap (childIdsAt slots) ++ [scope.root]).Perm ids := by
    have perm := represents.stores.perm
    rwa [Scope.elements, List.getLast?_append, Option.or_none] at perm
  induction represent with
  | main represents => exact alone represents
  | inline name represents _ ih =>
      have first := alone represents
      rw [List.perm_iff_count] at first ih ⊢
      intro place
      have first := first place
      have later := ih place
      simp only [List.flatMap_append, List.count_append, List.map_cons, List.count_cons,
        List.count_nil] at first later ⊢
      omega

end ScopesRepresent

/-- A change of the innermost scope leaves the others alone if it does not touch their places. -/
theorem ScopesRepresent.exists_current {arena : Arena} {assembly : Assembly} {ids : List Nat}
    (represent :
      ScopesRepresent arena.slots arena.main assembly.main arena.inline assembly.inline ids) :
    ∃ inside outside, ids = inside ++ outside ∧
      arena.current.Represents arena.slots assembly.current inside ∧
      ∀ {slots change change' inside'},
        (change arena.current).Represents slots (change' assembly.current) inside' →
        (∀ id ∈ outside, slots[id]? = arena.slots[id]?) →
        ScopesRepresent slots (arena.modifyCurrent change).main (assembly.modifyCurrent change').main
          (arena.modifyCurrent change).inline (assembly.modifyCurrent change').inline
          (inside' ++ outside) := by
  rcases arena with ⟨slots, main, inline, components, buckets, imports, appended⟩
  rcases assembly with ⟨main', inline', components', buckets', imports'⟩
  cases represent with
  | main represents =>
      refine ⟨ids, [], (List.append_nil ids).symm, represents, fun changed _ => ?_⟩
      rw [List.append_nil]
      exact .main changed
  | @inline _ _ inside outside _ _ name represents later =>
      exact ⟨inside, outside, rfl, represents, fun changed same =>
        .inline name changed (later.congr same)⟩

end Arena

end TemplateMarkup
