import TemplateMarkup.Document.Basic

/-!
# The positions of a document

All positions that a document mentions, part by part: those of its tags and attributes, of its texts,
and of what was taken out of its trees.
-/

namespace TemplateMarkup

/-- What holds of texts, and of every element if it holds of its children, holds of all nodes. -/
@[elab_as_elim]
theorem Node.induction {motive : Node → Prop}
    (text : ∀ content position, motive (text content position))
    (element : ∀ tag children, (∀ child ∈ children, motive child) → motive (element tag children)) :
    ∀ node, motive node
  | .text content position => text content position
  | .element tag children => element tag children fun child _ => induction text element child

/-- The positions of a tag and of its attributes. -/
def Tag.positions (tag : Tag) : List Position :=
  tag.attributes.map (·.position) ++ tag.directives.map (·.position) ++ [tag.position]

namespace Node

mutual

/-- The positions of everything in a tree. -/
def positions : Node → List Position
  | text _ position => [position]
  | element tag children => tag.positions ++ positionsAll children

def positionsAll : List Node → List Position
  | [] => []
  | node :: rest => node.positions ++ positionsAll rest

end

theorem positionsAll_eq_flatMap (nodes : List Node) :
    positionsAll nodes = nodes.flatMap positions := by
  induction nodes with
  | nil => rfl
  | cons node rest ih => rw [positionsAll, ih, List.flatMap_cons]

end Node

def Element.positions (element : Element) : List Position :=
  element.tag.positions ++ Node.positionsAll element.children

def Component.positions (component : Component) : List Position :=
  component.root.positions

def Bucket.positions (bucket : Bucket) : List Position :=
  bucket.scripts.map (·.position) ++ bucket.styles.map (·.position)

def Template.positions (template : Template) : List Position :=
  template.main.positions ++ template.inlineComponents.entries.flatMap (·.2.positions) ++
    template.buckets.entries.flatMap (·.2.positions) ++ template.imports.map (·.position)

end TemplateMarkup
