import TemplateMarkup.Assembly.Basic

/-!
# The innermost scope

Every change that a token makes to a tree is a change of the innermost scope.  Changes of it follow
one another as functions do, and what is open in it decides what a closing tag does.
-/

namespace TemplateMarkup

namespace Scope

theorem length_nested_append (scope : Scope) (child : Node) :
    (scope.append child).nested.length = scope.nested.length := by
  unfold append
  split
  · rfl
  · next atElement => simp [atElement]

theorem length_nested_closeInnermost (scope : Scope) :
    scope.closeInnermost.nested.length = scope.nested.length - 1 := by
  unfold closeInnermost
  split
  · next noElement => simp [noElement]
  · next atElement => simp [length_nested_append, atElement]

theorem length_nested_closeMany (count : Nat) (scope : Scope) :
    (closeMany count scope).nested.length = scope.nested.length - count := by
  induction count generalizing scope with
  | zero => rfl
  | succ count ih =>
      rw [closeMany, ih, length_nested_closeInnermost]
      omega

theorem depthOf?_le {scope : Scope} {name : String} {depth : Nat}
    (isOpen : scope.depthOf? name = some depth) : depth ≤ scope.nested.length := by
  obtain ⟨index, found, rfl⟩ := Option.map_eq_some_iff.mp isOpen
  obtain ⟨inside, -⟩ := List.findIdx?_eq_some_iff_getElem.mp found
  exact inside

theorem latest_append_ne_nil (scope : Scope) (node : Node) :
    (scope.append node).innermost.latest ≠ [] := by
  rcases scope with ⟨root, nested, hasDefaultSlot, namedSlots, propTypes⟩
  cases nested <;> simp [append, innermost, OpenElement.append]

end Scope

namespace Assembly

theorem current_modifyCurrent (assembly : Assembly) (change : Scope → Scope) :
    (assembly.modifyCurrent change).current = change assembly.current := by
  rcases assembly with ⟨main, inline, components, buckets, imports⟩
  cases inline <;> rfl

theorem modifyCurrent_modifyCurrent (assembly : Assembly) (change later : Scope → Scope) :
    (assembly.modifyCurrent change).modifyCurrent later =
      assembly.modifyCurrent fun scope => later (change scope) := by
  rcases assembly with ⟨main, inline, components, buckets, imports⟩
  cases inline <;> rfl

theorem modifyCurrent_self (assembly : Assembly) :
    assembly.modifyCurrent (fun scope => scope) = assembly := by
  rcases assembly with ⟨main, inline, components, buckets, imports⟩
  cases inline <;> rfl

/-- A closing tag whose element is open in the innermost scope closes elements of that scope only. -/
theorem closeTag_of_depthOf? {assembly : Assembly} {closing : ClosingTag} {depth : Nat}
    (isOpen : assembly.current.depthOf? closing.name = some depth) :
    assembly.closeTag closing = .ok (assembly.modifyCurrent (Scope.closeMany depth)) := by
  rcases assembly with ⟨main, inline, components, buckets, imports⟩
  cases inline with
  | nil =>
      have isOpen : main.depthOf? closing.name = some depth := isOpen
      simp only [closeTag, closeWithin, isOpen]
  | cons opened outer =>
      have isOpen : opened.2.depthOf? closing.name = some depth := isOpen
      simp only [closeTag, closeWithin, isOpen]

/-- A closing tag closes a number of inline components, and then elements of the scope around them. -/
theorem exists_of_closeWithin {closing : ClosingTag} {scopes : List (String × Scope)}
    {assembly next : Assembly} (closes : closeWithin closing scopes assembly = .ok next) :
    ∃ count depth, next = (closeScopes count assembly).modifyCurrent (Scope.closeMany depth) := by
  induction scopes generalizing assembly with
  | nil =>
      unfold closeWithin at closes
      split at closes
      · next depth _ =>
          cases closes
          exact ⟨0, depth, rfl⟩
      · cases closes
  | cons opened outer ih =>
      unfold closeWithin at closes
      split at closes
      · next depth _ =>
          cases closes
          exact ⟨0, depth, rfl⟩
      · split at closes
        · cases closes
          exact ⟨1, 0, (modifyCurrent_self _).symm⟩
        · obtain ⟨count, depth, rfl⟩ := ih closes
          exact ⟨count + 1, depth, rfl⟩

end Assembly

end TemplateMarkup
