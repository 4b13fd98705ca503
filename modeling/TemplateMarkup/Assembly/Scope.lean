import TemplateMarkup.Document.Basic

/-!
# Scopes

A component whose markup is still being read: its root, the elements open below the root, and what is
known of its slots and properties.  Nodes go to the innermost open element.  An element becomes a
child of the element around it when it is closed.
-/

namespace TemplateMarkup

/-- An element whose children are still being read. -/
structure OpenElement where
  tag : Tag
  /-- The children read so far, latest first. -/
  latest : List Node
  deriving Repr

namespace OpenElement

def ofTag (tag : Tag) : OpenElement := ⟨tag, []⟩

def append (element : OpenElement) (child : Node) : OpenElement :=
  { element with latest := child :: element.latest }

def toElement (element : OpenElement) : Element := ⟨element.tag, element.latest.reverse⟩

end OpenElement

/-- A component whose markup is still being read. -/
structure Scope where
  root : OpenElement
  /-- The open elements below the root, innermost first. -/
  nested : List OpenElement
  hasDefaultSlot : Bool
  namedSlots : NameSet
  propTypes : Option String
  deriving Repr

namespace Scope

/-- A scope of which only the root's tag is known. -/
def ofRoot (tag : Tag) : Scope := ⟨.ofTag tag, [], false, .empty, none⟩

/-- The element that a new node goes to. -/
def innermost (scope : Scope) : OpenElement :=
  scope.nested.head?.getD scope.root

def append (scope : Scope) (child : Node) : Scope :=
  match scope.nested with
  | [] => { scope with root := scope.root.append child }
  | element :: outer => { scope with nested := element.append child :: outer }

def push (scope : Scope) (tag : Tag) : Scope :=
  { scope with nested := .ofTag tag :: scope.nested }

def closeInnermost (scope : Scope) : Scope :=
  match scope.nested with
  | [] => scope
  | element :: outer => { scope with nested := outer }.append element.toElement.toNode

def closeMany : Nat → Scope → Scope
  | 0, scope => scope
  | count + 1, scope => closeMany count scope.closeInnermost

/-- The number of elements to close so that the innermost one of a name is closed. -/
def depthOf? (scope : Scope) (name : String) : Option Nat :=
  (scope.nested.findIdx? (·.tag.name == name)).map (· + 1)

/-- White space is kept below an open element that asks for it. -/
def keepsWhitespace (scope : Scope) : Bool :=
  scope.nested.any fun element => TagName.keepsWhitespace element.tag.name

/-- Note a slot: by its name, or as the default one if it has none. -/
def recordSlot (scope : Scope) (tag : Tag) : Scope :=
  match tag.nonemptyValue? "name" with
  | some name => { scope with namedSlots := scope.namedSlots.insert name }
  | none => { scope with hasDefaultSlot := true }

def toComponent (scope : Scope) : Component :=
  let closed := closeMany scope.nested.length scope
  ⟨closed.root.toElement, closed.hasDefaultSlot, closed.namedSlots, closed.propTypes⟩

end Scope

end TemplateMarkup
