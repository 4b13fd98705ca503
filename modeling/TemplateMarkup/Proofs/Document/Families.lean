import TemplateMarkup.Proofs.Arena.Record
import TemplateMarkup.Proofs.Assembly.FlatStack

/-!
# Families

A tree as a list of families: every element with its children, where the children are seen without
what is inside of them, and with the elements around it.  A tree can be told from its families, and
each family can be followed while the tree is put together, because it changes only when its element
gets another child.

The families of an assembly are those of all its trees, finished or not.  An element that is still
open is already the last child of the element around it.
-/

namespace TemplateMarkup

/-- An element and its children. -/
structure Family where
  /-- The tag of the element and those of the elements around it, the root's tag last. -/
  lineage : List Tag
  children : List NodeHead
  deriving DecidableEq, Repr

/-- The text of a node, if it is one, with its position. -/
def NodeHead.text? : NodeHead → Option (String × Position)
  | .text content position => some (content, position)
  | .element _ => none

namespace Node

/-- A node without what is inside of it. -/
def head : Node → NodeHead
  | .text content position => .text content position
  | .element tag _ => .element tag

mutual

/-- The families within a node, if its parent has the given lineage. -/
def families (above : List Tag) : Node → List Family
  | .text _ _ => []
  | .element tag children => ⟨tag :: above, children.map head⟩ :: familiesAll (tag :: above) children

def familiesAll (above : List Tag) : List Node → List Family
  | [] => []
  | node :: rest => node.families above ++ familiesAll above rest

end

theorem familiesAll_append (above : List Tag) (first later : List Node) :
    familiesAll above (first ++ later) = familiesAll above first ++ familiesAll above later := by
  induction first with
  | nil => rfl
  | cons node rest ih => rw [List.cons_append, familiesAll, familiesAll, ih, List.append_assoc]

theorem familiesAll_singleton (above : List Tag) (node : Node) :
    familiesAll above [node] = node.families above :=
  List.append_nil _

end Node

def Component.families (component : Component) : List Family :=
  component.root.toNode.families []

/-- All trees of a template. -/
def Template.components (template : Template) : List Component :=
  template.main :: template.inlineComponents.values

def Template.families (template : Template) : List Family :=
  template.components.flatMap Component.families

theorem Template.mem_families {template : Template} {family : Family} :
    family ∈ template.families ↔
      ∃ component ∈ template.components, family ∈ component.families :=
  List.mem_flatMap

namespace OpenElement

/-- The tags of open elements, innermost first. -/
def lineage (elements : List OpenElement) : List Tag := elements.map (·.tag)

/-- The children read so far, in their order. -/
def children (element : OpenElement) : List NodeHead := element.latest.reverse.map Node.head

/-- The families of open elements, innermost element first.  What is pending becomes the last child
of the innermost element. -/
def families (pending : List NodeHead) : List OpenElement → List Family
  | [] => []
  | element :: around =>
      ⟨lineage (element :: around), element.children ++ pending⟩ ::
        (Node.familiesAll (lineage (element :: around)) element.latest.reverse ++
          families [.element element.tag] around)

theorem children_append (element : OpenElement) (node : Node) :
    (element.append node).children = element.children ++ [node.head] := by
  simp [children, append]

variable {element holding : OpenElement} {around : List OpenElement} {node : Node}

theorem families_append : (families [] (element.append node :: around)).Perm
    (node.families (lineage (element :: around)) ++ families [node.head] (element :: around)) := by
  have children : (element.append node).children = element.children ++ [node.head] :=
    element.children_append node
  have inside : Node.familiesAll (lineage (element :: around)) (element.append node).latest.reverse =
      Node.familiesAll (lineage (element :: around)) element.latest.reverse ++
        node.families (lineage (element :: around)) := by
    rw [append, List.reverse_cons, Node.familiesAll_append, Node.familiesAll_singleton]
  have lineage : lineage (element.append node :: around) = lineage (element :: around) := rfl
  rw [families, families, children, lineage, inside, List.append_nil, List.append_assoc]
  refine .trans ?_ List.perm_middle.symm
  refine .cons _ ?_
  rw [← List.append_assoc, ← List.append_assoc]
  exact List.perm_append_comm.append_right _

/-- Closing an element moves its families into the element around it. -/
theorem families_close :
    (families [] (holding.append element.toElement.toNode :: around)).Perm
      (families [] (element :: holding :: around)) := by
  refine families_append.trans (.of_eq ?_)
  simp [families, Node.families, Node.head, Element.toNode, toElement, children, lineage]

end OpenElement

namespace Scope

variable (scope : Scope)

/-- The tags of all open elements, innermost first, the root's tag last. -/
def lineage : List Tag := OpenElement.lineage scope.elements

def families : List Family := OpenElement.families [] scope.elements

theorem lineage_append (node : Node) : (scope.append node).lineage = scope.lineage := by
  obtain ⟨around, isInnermost⟩ := scope.exists_elements_eq
  rw [lineage, lineage, scope.elements_append isInnermost, isInnermost]
  rfl

theorem children_innermost_append (node : Node) :
    (scope.append node).innermost.children = scope.innermost.children ++ [node.head] := by
  rcases scope with ⟨root, _ | ⟨element, outer⟩, hasDefaultSlot, namedSlots, propTypes⟩
  · exact root.children_append node
  · exact element.children_append node

/-- A new node becomes a child of the innermost element and leaves the other families as they are. -/
theorem exists_families_eq : ∃ others,
    scope.families = ⟨scope.lineage, scope.innermost.children⟩ :: others ∧
      (∀ node, (scope.append node).families.Perm
        (⟨scope.lineage, scope.innermost.children ++ [node.head]⟩ ::
          (node.families scope.lineage ++ others))) ∧
      ∀ tag, (scope.push tag).families =
        ⟨tag :: scope.lineage, []⟩ ::
          ⟨scope.lineage, scope.innermost.children ++ [.element tag]⟩ :: others := by
  obtain ⟨around, isInnermost⟩ := scope.exists_elements_eq
  refine ⟨Node.familiesAll scope.lineage scope.innermost.latest.reverse ++
    OpenElement.families [.element scope.innermost.tag] around, ?_, fun node => ?_, fun tag => ?_⟩
  · rw [families, lineage, isInnermost, OpenElement.families, List.append_nil]
  · rw [families, lineage, scope.elements_append isInnermost, isInnermost]
    exact OpenElement.families_append.trans List.perm_middle
  · have pushed : (scope.push tag).elements = .ofTag tag :: scope.elements := rfl
    rw [families, lineage, pushed, isInnermost]
    rfl

theorem families_closeInnermost : scope.closeInnermost.families.Perm scope.families := by
  cases isOpen : scope.nested with
  | nil => rw [scope.closeInnermost_of_nil isOpen]
  | cons element outer =>
      obtain ⟨holding, around, before, after⟩ := scope.elements_closeInnermost isOpen
      rw [families, families, before, after]
      exact OpenElement.families_close

theorem families_closeMany (count : Nat) : (closeMany count scope).families.Perm scope.families := by
  induction count generalizing scope with
  | zero => exact .refl _
  | succ count ih => exact (ih scope.closeInnermost).trans scope.families_closeInnermost

/-- The finished tree has the families of the scope. -/
theorem families_toComponent : scope.toComponent.families.Perm scope.families := by
  refine .trans (.of_eq ?_) (scope.families_closeMany scope.nested.length)
  have isClosed : (closeMany scope.nested.length scope).nested = [] := by
    rw [← List.length_eq_zero_iff, length_nested_closeMany, Nat.sub_self]
  rw [toComponent, families, elements, isClosed]
  simp [Component.families, OpenElement.families, Element.toNode, OpenElement.toElement,
    Node.families, OpenElement.lineage, OpenElement.children]

end Scope

end TemplateMarkup
