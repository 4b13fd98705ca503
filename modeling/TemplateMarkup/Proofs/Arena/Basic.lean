import TemplateMarkup.Assembly.Basic

/-!
# Assembly in an arena

A third way to put a template together, which never moves an element that is open.  Every element
gets a place in an arena as soon as its tag has been read, and is known by the number of this place
from then on.  Its parent lists it among its children at once, and the scopes hold the numbers of
their roots and of their open elements.  A tree is built only when its scope is closed, and its
elements are moved out of the arena then.

An arena keeps a record of all nodes that have been appended, each with the component whose scope
was innermost.  Nothing else depends on the record.
-/

namespace TemplateMarkup

/-- What a node is, apart from the nodes inside it. -/
inductive NodeHead where
  | text (content : String) (position : Position)
  | element (tag : Tag)
  deriving DecidableEq, Repr

namespace Node

mutual

/-- All nodes of a tree, every element before what is inside it. -/
def heads : Node → List NodeHead
  | .text content position => [.text content position]
  | .element tag children => .element tag :: headsAll children

def headsAll : List Node → List NodeHead
  | [] => []
  | node :: rest => node.heads ++ headsAll rest

end

end Node

namespace Arena

/-- A child of an element in the arena: a text, or the number of another element. -/
inductive Child where
  | text (content : String) (position : Position)
  | element (id : Nat)
  deriving DecidableEq, Repr

namespace Child

def id? : Child → Option Nat
  | text _ _ => none
  | element id => some id

/-- The children of an element with a raw body: its trimmed text, if there is any. -/
def ofBody : Option RawBody → List Child
  | none => []
  | some body => if body.trimmed.isEmpty then [] else [.text body.trimmed body.position]

end Child

/-- A place of an arena. -/
structure Slot where
  tag : Tag
  children : List Child
  /-- The element has been moved out. -/
  isTaken : Bool
  deriving DecidableEq, Repr

namespace Slot

def of (tag : Tag) (children : List Child) : Slot := ⟨tag, children, false⟩

/-- What is left of an element that has been moved out. -/
def vacated : Slot := ⟨.bare "" .start, [], true⟩

def add (child : Child) (slot : Slot) : Slot :=
  { slot with children := slot.children ++ [child] }

/-- The numbers of the elements among the children. -/
def childIds (slot : Slot) : List Nat := slot.children.filterMap Child.id?

end Slot

/-- Build children one after the other. -/
def buildChildren? (build? : Nat → List Slot → Option (Element × List Slot)) :
    List Child → List Slot → Option (List Node × List Slot)
  | [], slots => some ([], slots)
  | .text content position :: rest, slots => do
      let (nodes, slots) ← buildChildren? build? rest slots
      return (.text content position :: nodes, slots)
  | .element id :: rest, slots => do
      let (element, slots) ← build? id slots
      let (nodes, slots) ← buildChildren? build? rest slots
      return (element.toNode :: nodes, slots)

/-- Build the tree below an element and move all its elements out.  There is no tree if an element
is missing, or if the tree is deeper than the bound. -/
def build? : Nat → Nat → List Slot → Option (Element × List Slot)
  | 0, _, _ => none
  | bound + 1, id, slots => do
      let slot ← slots[id]?
      let (children, slots) ← buildChildren? (build? bound) slot.children (slots.set id .vacated)
      return (⟨slot.tag, children⟩, slots)

def tagNameAt (slots : List Slot) (id : Nat) : String :=
  (slots[id]?.map (·.tag.name)).getD ""

/-- A component whose markup is still being read. -/
structure Scope where
  root : Nat
  /-- The open elements below the root, innermost first. -/
  opened : List Nat
  hasDefaultSlot : Bool
  namedSlots : NameSet
  propTypes : Option String
  deriving Repr

namespace Scope

def ofRoot (root : Nat) : Scope := ⟨root, [], false, .empty, none⟩

/-- All open elements, innermost first, the root last. -/
def elements (scope : Scope) : List Nat := scope.opened ++ [scope.root]

/-- The element that a new node goes to. -/
def parent (scope : Scope) : Nat := scope.opened.head?.getD scope.root

def push (scope : Scope) (id : Nat) : Scope := { scope with opened := id :: scope.opened }

def closeMany (count : Nat) (scope : Scope) : Scope :=
  { scope with opened := scope.opened.drop count }

/-- Note a slot: by its name, or as the default one if it has none. -/
def recordSlot (scope : Scope) (tag : Tag) : Scope :=
  match tag.nonemptyValue? "name" with
  | some name => { scope with namedSlots := scope.namedSlots.insert name }
  | none => { scope with hasDefaultSlot := true }

def toComponent (scope : Scope) (root : Element) : Component :=
  ⟨root, scope.hasDefaultSlot, scope.namedSlots, scope.propTypes⟩

end Scope

/-- What a record of nodes has under the name of a component. -/
def nodesOf (appended : List (Option String × NodeHead)) (component : Option String) :
    List NodeHead :=
  (appended.filter (·.1 == component)).map Prod.snd

/-- Why no template comes out. -/
inductive Halt where
  | fault (error : ParseError)
  /-- A tree cannot be built. -/
  | unbuilt
  deriving DecidableEq, Repr

end Arena

/-- A template that is being put together in an arena. -/
structure Arena where
  slots : List Arena.Slot
  /-- The scope of the file's own markup. -/
  main : Arena.Scope
  /-- The scopes of the open inline components with their names, innermost first. -/
  inline : List (String × Arena.Scope)
  /-- The inline components declared so far.  An open one has a value that stands in for it. -/
  components : NameMap Component
  buckets : NameMap Bucket
  imports : List ComponentImport
  /-- All nodes appended so far, with the name of the innermost component at that time. -/
  appended : List (Option String × NodeHead)
  deriving Repr

namespace Arena

/-- The value of a component that is still open. -/
def placeholder : Component := ⟨⟨.bare "" .start, []⟩, false, .empty, none⟩

/-- Nothing has been read.  The root of the file's own markup has an empty name. -/
def initial (start : Position) : Arena :=
  ⟨[.of (.bare "" start) []], .ofRoot 0, [], .empty, .empty, [], []⟩

def current (arena : Arena) : Scope :=
  match arena.inline with
  | [] => arena.main
  | (_, scope) :: _ => scope

def scopes (arena : Arena) : List Scope := arena.main :: arena.inline.map Prod.snd

/-- The name of the innermost component, if it is not the file's own markup. -/
def currentName (arena : Arena) : Option String := arena.inline.head?.map Prod.fst

def modifyCurrent (arena : Arena) (change : Scope → Scope) : Arena :=
  match arena.inline with
  | [] => { arena with main := change arena.main }
  | (name, scope) :: outer => { arena with inline := (name, change scope) :: outer }

/-- The record of the nodes that have been appended to a component. -/
def appendedTo (arena : Arena) (component : Option String) : List NodeHead :=
  nodesOf arena.appended component

def tagName (arena : Arena) (id : Nat) : String := tagNameAt arena.slots id

/-- White space is kept if any open element asks for it. -/
def keepsWhitespace (arena : Arena) : Bool :=
  arena.scopes.any fun scope =>
    scope.opened.any fun id => TagName.keepsWhitespace (arena.tagName id)

def record (arena : Arena) (heads : List NodeHead) : List (Option String × NodeHead) :=
  arena.appended ++ heads.map fun head => (arena.currentName, head)

def appendText (arena : Arena) (content : String) (position : Position) : Arena :=
  { arena with
    slots := arena.slots.modify arena.current.parent (·.add (.text content position))
    appended := arena.record [.text content position] }

/-- Put an element into the arena and make it the last child of the innermost open one. -/
def appendElement (arena : Arena) (tag : Tag) (body : Option RawBody) : Arena :=
  { arena with
    slots := (arena.slots ++ [Slot.of tag (Child.ofBody body)]).modify arena.current.parent
      (·.add (.element arena.slots.length))
    appended := arena.record (Node.element tag (RawBody.children body)).heads }

def openElement (arena : Arena) (tag : Tag) : Arena :=
  (arena.appendElement tag none).modifyCurrent (·.push arena.slots.length)

/-- Add a text run to the innermost open element, unless nothing remains of it. -/
def addText (arena : Arena) (run : TextRun) : Arena :=
  let isFirst := (arena.slots[arena.current.parent]?.map (·.children.isEmpty)).getD true
  let policy := WhitespacePolicy.between isFirst (run.ending ≠ .openingTag)
  let text :=
    if arena.keepsWhitespace then run.text
    else String.ofList (policy.apply run.text.toList)
  if text.isEmpty then arena else arena.appendText text run.position

/-- Build the innermost inline component and put it down under its name. -/
def closeScope (arena : Arena) : Except Halt Arena :=
  match arena.inline with
  | [] => .ok arena
  | (name, scope) :: outer =>
      match build? arena.slots.length scope.root arena.slots with
      | none => .error .unbuilt
      | some (root, slots) =>
          .ok { arena with
            slots
            inline := outer
            components := arena.components.insert name (scope.toComponent root) }

/-- Declare an inline component and open its scope, unless the tag closes itself. -/
def openComponent (arena : Arena) (name : String) (opening : OpeningTag) : Except Halt Arena :=
  if arena.components.contains name then
    .error (.fault ⟨.duplicateComponent name, opening.tag.position, opening.span⟩)
  else
    let opened : Arena :=
      { arena with
        slots := arena.slots ++ [Slot.of opening.tag []]
        inline := (name, .ofRoot arena.slots.length) :: arena.inline
        components := arena.components.insert name placeholder }
    if opening.isSelfClosing then opened.closeScope else .ok opened

def addScript (arena : Arena) (bucket : String) (script : Script) : Arena :=
  { arena with
    buckets := arena.buckets.update bucket .empty fun gathered =>
      { gathered with scripts := gathered.scripts ++ [script] } }

def addStyle (arena : Arena) (bucket : String) (style : Style) : Arena :=
  { arena with
    buckets := arena.buckets.update bucket .empty fun gathered =>
      { gathered with styles := gathered.styles ++ [style] } }

/-- Put a link, a script or a style sheet where it goes. -/
def place (arena : Arena) (tag : Tag) (body : Option RawBody) : Arena :=
  match Destination.ofElement tag body with
  | .tree => arena.appendElement tag body
  | .imports imported => { arena with imports := arena.imports ++ [imported] }
  | .script bucket script => arena.addScript bucket script
  | .style bucket style => arena.addStyle bucket style
  | .propTypes text => arena.modifyCurrent fun scope => { scope with propTypes := some text }
  | .nowhere => arena

/-- Add an element that is neither collected nor a component.  It is opened if its body is markup.
-/
def addElement (arena : Arena) (opening : OpeningTag) (body : Option RawBody) : Arena :=
  let noted :=
    if opening.tag.name == "slot" then arena.modifyCurrent (·.recordSlot opening.tag) else arena
  if opening.isSelfClosing || opening.tag.isVoid || body.isSome then
    noted.appendElement opening.tag body
  else
    noted.openElement opening.tag

/-- Take up an opening tag and the raw body after it. -/
def openTag (arena : Arena) (opening : OpeningTag) (body : Option RawBody) : Except Halt Arena :=
  if opening.tag.name == "link" || TagName.hasForeignBody opening.tag.name then
    .ok (arena.place opening.tag body)
  else
    match opening.tag.componentName? with
    | some name => arena.openComponent name opening
    | none => .ok (arena.addElement opening body)

/-- The number of elements to close so that the innermost one of a name is closed. -/
def depthOf? (arena : Arena) (scope : Scope) (name : String) : Option Nat :=
  (scope.opened.findIdx? fun id => arena.tagName id == name).map (· + 1)

/-- Search the scopes, innermost first, for what a closing tag closes.  The first argument lists the
open inline scopes. -/
def closeWithin (closing : ClosingTag) : List (String × Scope) → Arena → Except Halt Arena
  | [], arena =>
      match arena.depthOf? arena.main closing.name with
      | some depth => .ok (arena.modifyCurrent (Scope.closeMany depth))
      | none => .error (.fault (Assembly.unmatched closing))
  | (_, scope) :: outer, arena =>
      match arena.depthOf? scope closing.name with
      | some depth => .ok (arena.modifyCurrent (Scope.closeMany depth))
      | none =>
          if closing.name = "template" then arena.closeScope
          else do
            let closed ← arena.closeScope
            closeWithin closing outer closed

def closeTag (arena : Arena) (closing : ClosingTag) : Except Halt Arena :=
  closeWithin closing arena.inline arena

def step (arena : Arena) : Token → Except Halt Arena
  | .text run => .ok (arena.addText run)
  | .opening tag body => arena.openTag tag body
  | .closing tag => arena.closeTag tag

/-- Close a number of inline components, innermost first. -/
def closeScopes : Nat → Arena → Except Halt Arena
  | 0, arena => .ok arena
  | count + 1, arena => do
      let closed ← arena.closeScope
      closeScopes count closed

/-- Build everything that is open at the end of the input. -/
def finish (arena : Arena) (sourcePath : Option String) : Except Halt Template := do
  let closed ← closeScopes arena.inline.length arena
  match build? closed.slots.length closed.main.root closed.slots with
  | none => .error .unbuilt
  | some (root, _) =>
      return {
        sourcePath
        main := closed.main.toComponent root
        inlineComponents := closed.components
        buckets := closed.buckets
        imports := closed.imports }

/-- Read a template in an arena. -/
def parse (source : String) (start : Position) (sourcePath : Option String) :
    Except Halt Template := do
  let arena ← (Token.scan source start).foldlM step (initial start)
  arena.finish sourcePath

end Arena

end TemplateMarkup
