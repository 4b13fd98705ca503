import TemplateMarkup.Proofs.Arena.Basic
import TemplateMarkup.Proofs.Assembly.Scopes

/-!
# The nodes of a scope in their order

All nodes that a scope has so far, each without what is inside it.  A new node always comes last in
this order, closing elements does not change it, and it is the order of the nodes in the finished
tree.
-/

namespace TemplateMarkup

namespace Node

theorem headsAll_append (first later : List Node) :
    headsAll (first ++ later) = headsAll first ++ headsAll later := by
  induction first with
  | nil => rfl
  | cons node rest ih => rw [List.cons_append, headsAll, headsAll, ih, List.append_assoc]

theorem headsAll_singleton (node : Node) : headsAll [node] = node.heads :=
  List.append_nil _

end Node

/-- The nodes of some open elements, innermost element first.  The elements are among the nodes. -/
def OpenElement.heads : List OpenElement → List NodeHead
  | [] => []
  | element :: around => heads around ++ .element element.tag :: Node.headsAll element.latest.reverse

section

variable {element holding : OpenElement} {around : List OpenElement} {node : Node}

theorem OpenElement.heads_append :
    heads (element.append node :: around) = heads (element :: around) ++ node.heads := by
  simp only [heads, append, List.reverse_cons, Node.headsAll_append, Node.headsAll_singleton,
    List.append_assoc, List.cons_append]

theorem OpenElement.heads_ofTag (tag : Tag) :
    heads (.ofTag tag :: around) = heads around ++ [.element tag] :=
  rfl

theorem OpenElement.heads_close :
    heads (holding.append element.toElement.toNode :: around) = heads (element :: holding :: around) :=
  heads_append

end

namespace Scope

/-- All open elements, innermost first, the root last. -/
def elements (scope : Scope) : List OpenElement := scope.nested ++ [scope.root]

/-- All nodes of a scope, the root first. -/
def heads (scope : Scope) : List NodeHead := OpenElement.heads scope.elements

variable (scope : Scope)

theorem exists_elements_eq : ∃ around, scope.elements = scope.innermost :: around := by
  rcases scope with ⟨root, _ | ⟨element, outer⟩, hasDefaultSlot, namedSlots, propTypes⟩
  · exact ⟨[], rfl⟩
  · exact ⟨outer ++ [root], rfl⟩

theorem elements_append {around : List OpenElement}
    (isInnermost : scope.elements = scope.innermost :: around) (node : Node) :
    (scope.append node).elements = scope.innermost.append node :: around := by
  rcases scope with ⟨root, _ | ⟨element, outer⟩, hasDefaultSlot, namedSlots, propTypes⟩
  · cases isInnermost
    rfl
  · cases isInnermost
    rfl

theorem flags_append (node : Node) :
    (scope.append node).hasDefaultSlot = scope.hasDefaultSlot ∧
      (scope.append node).namedSlots = scope.namedSlots ∧
      (scope.append node).propTypes = scope.propTypes := by
  unfold append
  split <;> exact ⟨rfl, rfl, rfl⟩

theorem heads_append (node : Node) : (scope.append node).heads = scope.heads ++ node.heads := by
  obtain ⟨around, isInnermost⟩ := scope.exists_elements_eq
  rw [heads, heads, scope.elements_append isInnermost, isInnermost, OpenElement.heads_append]

theorem heads_push (tag : Tag) : (scope.push tag).heads = scope.heads ++ [.element tag] :=
  OpenElement.heads_ofTag tag

theorem elements_recordSlot (tag : Tag) : (scope.recordSlot tag).elements = scope.elements := by
  unfold recordSlot
  split <;> rfl

/-- Closing the innermost element puts it among the children of the element around it. -/
theorem elements_closeInnermost {element : OpenElement} {outer : List OpenElement}
    (isOpen : scope.nested = element :: outer) :
    ∃ holding around, scope.elements = element :: holding :: around ∧
      scope.closeInnermost.elements = holding.append element.toElement.toNode :: around := by
  rcases scope with ⟨root, nested, hasDefaultSlot, namedSlots, propTypes⟩
  cases isOpen
  cases outer with
  | nil => exact ⟨root, [], rfl, rfl⟩
  | cons holding outer => exact ⟨holding, outer ++ [root], rfl, rfl⟩

theorem closeInnermost_of_nil (isClosed : scope.nested = []) : scope.closeInnermost = scope := by
  rw [closeInnermost, isClosed]

theorem flags_closeInnermost :
    scope.closeInnermost.hasDefaultSlot = scope.hasDefaultSlot ∧
      scope.closeInnermost.namedSlots = scope.namedSlots ∧
      scope.closeInnermost.propTypes = scope.propTypes := by
  unfold closeInnermost
  split
  · exact ⟨rfl, rfl, rfl⟩
  · exact flags_append _ _

theorem heads_closeInnermost : scope.closeInnermost.heads = scope.heads := by
  cases isOpen : scope.nested with
  | nil => rw [scope.closeInnermost_of_nil isOpen]
  | cons element outer =>
      obtain ⟨holding, around, before, after⟩ := scope.elements_closeInnermost isOpen
      rw [heads, heads, before, after, OpenElement.heads_close]

theorem heads_closeMany (count : Nat) : (closeMany count scope).heads = scope.heads := by
  induction count generalizing scope with
  | zero => rfl
  | succ count ih => rw [closeMany, ih, heads_closeInnermost]

/-- The finished tree has the nodes of the scope, in the same order. -/
theorem heads_toComponent : scope.toComponent.root.toNode.heads = scope.heads := by
  rw [← scope.heads_closeMany scope.nested.length]
  have isClosed : (closeMany scope.nested.length scope).nested = [] := by
    rw [← List.length_eq_zero_iff, length_nested_closeMany, Nat.sub_self]
  rw [toComponent, heads, elements, isClosed]
  rfl

end Scope

end TemplateMarkup
