import TemplateMarkup.Document.NameMap
import TemplateMarkup.Document.NameSet
import TemplateMarkup.Source.Position

/-!
# Documents

What a template file says, once it has been read: a tree of text and elements for the file itself and
for every component declared in it, the scripts and styles it brings along, and the components it
imports.  A few tag names have a meaning of their own.  Names are compared exactly, so an upper-case
name is an ordinary one.
-/

namespace TemplateMarkup

namespace TagName

def voidNames : List String :=
  ["area", "base", "br", "col", "embed", "hr", "img", "input", "link", "meta", "param", "source",
    "track", "wbr"]

def isVoid (name : String) : Bool := voidNames.contains name

/-- The body of a script or a style sheet is text of another language. -/
def hasForeignBody (name : String) : Bool := name == "script" || name == "style"

/-- White space under these elements is kept as it is. -/
def keepsWhitespace (name : String) : Bool := name == "pre" || name == "textarea"

end TagName

/-- A plain attribute.  It has no value if it is written without an equals sign. -/
structure StaticAttribute where
  name : String
  value : Option String
  position : Position
  deriving DecidableEq, Repr

/-- An attribute that is evaluated when the template is rendered, written `#name`, `#name:modifier`
or `:bound`. -/
structure Directive where
  name : String
  modifier : Option String
  value : Option String
  referencesProps : Bool
  isAsync : Bool
  position : Position
  deriving DecidableEq, Repr

namespace Directive

/-- The name under which an attribute binding `:bound` is kept.  What it binds is its modifier. -/
def bindingName : String := "attr"

/-- The value unless it is missing or empty, else the modifier unless it is missing or empty. -/
def argument? (directive : Directive) : Option String :=
  (directive.value.filter (!·.isEmpty)).or (directive.modifier.filter (!·.isEmpty))

end Directive

/-- What an opening tag says of its element. -/
structure Tag where
  name : String
  attributes : List StaticAttribute
  directives : List Directive
  position : Position
  deriving DecidableEq, Repr

namespace Tag

def bare (name : String) (position : Position) : Tag := ⟨name, [], [], position⟩

def staticAttribute? (tag : Tag) (name : String) : Option StaticAttribute :=
  tag.attributes.find? (·.name == name)

/-- The value of the first attribute of a name. -/
def value? (tag : Tag) (name : String) : Option String :=
  (tag.staticAttribute? name).bind (·.value)

/-- The value of the first attribute of a name, unless it is empty. -/
def nonemptyValue? (tag : Tag) (name : String) : Option String :=
  (tag.value? name).filter (!·.isEmpty)

def directive? (tag : Tag) (name : String) : Option Directive :=
  tag.directives.find? (·.name == name)

def hasDirective (tag : Tag) (name : String) : Bool :=
  (tag.directive? name).isSome

/-- The argument of the first directive of a name. -/
def argument? (tag : Tag) (name : String) : Option String :=
  (tag.directive? name).bind (·.argument?)

def isVoid (tag : Tag) : Bool := TagName.isVoid tag.name

/-- The name of the component that a `template` tag declares. -/
def componentName? (tag : Tag) : Option String :=
  if tag.name == "template" then tag.argument? "component" else none

end Tag

/-- A node of a document tree. -/
inductive Node where
  | text (content : String) (position : Position)
  | element (tag : Tag) (children : List Node)
  deriving Repr

/-- An element with everything inside it. -/
structure Element where
  tag : Tag
  children : List Node
  deriving Repr

namespace Node

def position : Node → Position
  | .text _ position => position
  | .element tag _ => tag.position

def element? : Node → Option Element
  | .text _ _ => none
  | .element tag children => some ⟨tag, children⟩

def text? : Node → Option String
  | .text content _ => some content
  | .element _ _ => none

mutual

/-- The number of nodes in a tree, its root included. -/
def size : Node → Nat
  | .text _ _ => 1
  | .element _ children => 1 + sizeAll children

/-- The number of nodes in a list of trees. -/
def sizeAll : List Node → Nat
  | [] => 0
  | node :: rest => node.size + sizeAll rest

end

end Node

namespace Element

def toNode (element : Element) : Node := .element element.tag element.children

def sizeBelow (element : Element) : Nat := Node.sizeAll element.children

def descend? (element : Element) : List Nat → Option Node
  | [] => some element.toNode
  | index :: path =>
      match element.children[index]? with
      | none => none
      | some (.element tag children) => descend? ⟨tag, children⟩ path
      | some (.text content position) => if path.isEmpty then some (.text content position) else none

end Element

/-- A tree that can be used by name: the file's own markup or a component declared in it. -/
structure Component where
  root : Element
  hasDefaultSlot : Bool
  namedSlots : NameSet
  propTypes : Option String
  deriving Repr

/-- Where a script or a style sheet is: in the file itself or at a path. -/
inductive AssetSource where
  | content (text : String)
  | path (path : String)
  deriving DecidableEq, Repr

/-- A script taken out of the tree. -/
structure Script where
  source : AssetSource
  scope : String
  position : Position
  deriving DecidableEq, Repr

/-- A style sheet taken out of the tree. -/
structure Style where
  source : AssetSource
  position : Position
  deriving DecidableEq, Repr

/-- The scripts and styles gathered under one name. -/
structure Bucket where
  scripts : List Script
  styles : List Style
  deriving DecidableEq, Repr

namespace Bucket

def empty : Bucket := ⟨[], []⟩

/-- The bucket of scripts and styles that name none. -/
def defaultName : String := "default"

end Bucket

/-- A component taken from another file. -/
structure ComponentImport where
  name : Option String
  path : String
  position : Position
  deriving DecidableEq, Repr

/-- Everything that one template file says. -/
structure Template where
  sourcePath : Option String
  main : Component
  inlineComponents : NameMap Component
  buckets : NameMap Bucket
  imports : List ComponentImport
  deriving Repr

namespace Template

def inlineComponent? (template : Template) (name : String) : Option Component :=
  template.inlineComponents.find? name

def bucket? (template : Template) (name : String) : Option Bucket :=
  template.buckets.find? name

def total : List Nat → Nat
  | [] => 0
  | number :: rest => number + total rest

/-- The number of nodes in all trees, their roots not counted. -/
def nodeCount (template : Template) : Nat :=
  template.main.root.sizeBelow + total (template.inlineComponents.values.map (·.root.sizeBelow))

/-- The number of scripts and styles in all buckets. -/
def assetCount (template : Template) : Nat :=
  total (template.buckets.values.map fun bucket => bucket.scripts.length + bucket.styles.length)

end Template

end TemplateMarkup
