import TemplateMarkup.Proofs.Document.Inventory
import TemplateMarkup.Proofs.Document.Ledger

/-!
# Slots of a component

A component has a summary of the slots in its tree: whether there is one without a name, and the names
of the others.  The summary is gathered on the scope that is innermost when a slot is read, apart from
the tree.  It says of every tree what the tree itself says.
-/

namespace TemplateMarkup

theorem NameSet.names_ofList (names : List String) : (ofList names).names = names.eraseDups := by
  induction names using List.reverseRecOn with
  | nil => rfl
  | append_singleton names name ih =>
      have isInsert : ofList (names ++ [name]) = (ofList names).insert name := by
        rw [ofList, List.foldl_append]
        rfl
      rw [isInsert, eraseDups_append_singleton, ← ih]
      by_cases present : name ∈ names
      · rw [names_insert_of_mem (ih ▸ List.mem_eraseDups.mpr present),
          if_pos (List.contains_iff_mem.mpr present)]
      · have absent : name ∉ (ofList names).names := fun isOld =>
          present (List.mem_eraseDups.mp (ih ▸ isOld))
        rw [names_insert_of_not_mem absent,
          if_neg fun isOld => present (List.contains_iff_mem.mp isOld)]

/-- The attribute of a name gives no name: it is missing, has no value or has an empty one. -/
theorem Tag.nonemptyValue?_eq_none_iff {tag : Tag} {name : String} :
    tag.nonemptyValue? name = none ↔
      ∀ written, tag.staticAttribute? name = some written →
        written.value = none ∨ written.value = some "" := by
  unfold nonemptyValue? value?
  cases tag.staticAttribute? name with
  | none => simp
  | some written =>
      rw [Option.bind_some]
      cases given : written.value with
      | none => simp [given]
      | some value => simp [given]

theorem NodeHead.isDefaultSlot_iff {node : NodeHead} :
    node.isDefaultSlot ↔ ∃ tag, node = .element tag ∧ tag.name = "slot" ∧
      tag.nonemptyValue? "name" = none := by
  cases node with
  | text content position => simp [isDefaultSlot, slot?]
  | element tag => by_cases isSlot : tag.name = "slot" <;> simp [isDefaultSlot, slot?, isSlot]

/-- The names that the slots below the root of a component have, in the order of the slots. -/
def Component.slotNames (component : Component) : List String :=
  component.nodes.filterMap fun
    | .text _ _ => none
    | .element tag => if tag.name = "slot" then tag.nonemptyValue? "name" else none

/-- The summary of a component's slots agrees with its tree. -/
structure Component.SummarizesSlots (component : Component) : Prop where
  hasDefaultSlot : component.hasDefaultSlot = true ↔
    ∃ tag, .element tag ∈ component.nodes ∧ tag.name = "slot" ∧
      ∀ written, tag.staticAttribute? "name" = some written →
        written.value = none ∨ written.value = some ""
  /-- No name comes twice, and the names are in the order of their first slots. -/
  namedSlots : component.namedSlots.names = component.slotNames.eraseDups

theorem Component.summarizesSlots_of_isMadeOf {component : Component} {read : List NodeHead}
    (isMade : component.inventory.IsMadeOf read) : component.SummarizesSlots := by
  obtain ⟨isOf, -⟩ := inventory_eq_of_isMadeOf isMade
  constructor
  · have hasDefaultSlot : component.hasDefaultSlot = _ := congrArg Inventory.hasDefaultSlot isOf
    rw [hasDefaultSlot, Inventory.hasDefaultSlot_of, List.any_eq_true]
    simp only [NodeHead.isDefaultSlot_iff, Tag.nonemptyValue?_eq_none_iff]
    constructor
    · rintro ⟨node, member, tag, rfl, isSlot⟩
      exact ⟨tag, member, isSlot⟩
    · rintro ⟨tag, member, isSlot⟩
      exact ⟨_, member, tag, rfl, isSlot⟩
  · have namedSlots : component.namedSlots = _ := congrArg Inventory.namedSlots isOf
    have slotNames : component.nodes.filterMap NodeHead.slotName? = component.slotNames := by
      refine List.filterMap_congr fun node _ => ?_
      cases node with
      | text content position => rfl
      | element tag =>
          by_cases isSlot : tag.name = "slot" <;>
            simp [NodeHead.slotName?, NodeHead.slot?, isSlot]
    rw [namedSlots, Inventory.namedSlots_of, NameSet.names_ofList, slotNames]

namespace Template

variable {source : String} {start : Position} {sourcePath : Option String} {template : Template}

/-- Every component has the summary of its slots. -/
theorem summarizesSlots_of_parse (isParsed : parse source start sourcePath = .ok template) :
    ∀ component ∈ template.components, component.SummarizesSlots :=
  fun component isComponent =>
    Component.summarizesSlots_of_isMadeOf (isMadeOf_nodesRead isParsed component isComponent)

/-- A component declared inside of a slot, and slots that are closed in another order than they are
opened. -/
def slotSource : String :=
  "<slot name=\"a\"><template #component=\"card\"><slot name=\"c\"><slot name=\"b\"></template>" ++
    "<b><slot name=\"d\"></b></slot><slot name=\"a\"/><slot name/>"

/-- Each slot is noted for the component that it stands in. -/
theorem summarizesSlots_slotSource : ∃ template, parse slotSource .start none = .ok template ∧
    template.components.map (·.hasDefaultSlot) = [true, false] ∧
    template.components.map (·.namedSlots.names) = [["a", "d"], ["c", "b"]] ∧
    ∀ component ∈ template.components, component.SummarizesSlots := by
  have isParsed : (parse slotSource .start none).map (fun template =>
      (template.components.map (·.hasDefaultSlot), template.components.map (·.namedSlots.names))) =
        .ok ([true, false], [["a", "d"], ["c", "b"]]) := by decide +kernel
  obtain ⟨template, isTemplate, slots⟩ := exists_ok_of_map isParsed
  obtain ⟨defaults, names⟩ := Prod.mk.inj slots
  exact ⟨template, isTemplate, defaults, names, summarizesSlots_of_parse isTemplate⟩

end Template

end TemplateMarkup
