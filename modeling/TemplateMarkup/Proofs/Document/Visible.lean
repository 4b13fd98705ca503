import TemplateMarkup.Proofs.Document.Rewording
import TemplateMarkup.Proofs.Text.Trimming

/-!
# What is visible of a document

A tree without its positions and without the white space of its texts: the elements in their order and
nesting, with their attributes, and between them the other characters of their texts.  Texts next to
each other are not told apart.

White space may be changed by any policy, and no more can be seen of it.
-/

namespace TemplateMarkup

open CharacterClass

/-- Something visible in a tree. -/
inductive Visible where
  | character (character : Char)
  | element (tag : Tag) (children : List Visible)

/-- The characters of a text that are not white space. -/
def visibleText (text : List Char) : List Visible :=
  (text.filter (!isWhitespace ·)).map .character

namespace Node

mutual

/-- What is visible of a node. -/
def visible : Node → List Visible
  | text content _ => visibleText content.toList
  | element tag children => [.element (tag.reword .unplaced) (visibleAll children)]

def visibleAll : List Node → List Visible
  | [] => []
  | node :: rest => node.visible ++ visibleAll rest

end

theorem visibleAll_eq_flatMap (nodes : List Node) : visibleAll nodes = nodes.flatMap visible := by
  induction nodes with
  | nil => rfl
  | cons node rest ih => rw [visibleAll, ih, List.flatMap_cons]

theorem visibleAll_append (first second : List Node) :
    visibleAll (first ++ second) = visibleAll first ++ visibleAll second := by
  rw [visibleAll_eq_flatMap, List.flatMap_append, visibleAll_eq_flatMap, visibleAll_eq_flatMap]

end Node

/-- A component of which only what is visible is known, apart from its slots and properties. -/
structure VisibleComponent where
  tag : Tag
  children : List Visible
  hasDefaultSlot : Bool
  namedSlots : NameSet
  propTypes : Option String

def Component.visible (component : Component) : VisibleComponent :=
  { tag := component.root.tag.reword .unplaced
    children := Node.visibleAll component.root.children
    hasDefaultSlot := component.hasDefaultSlot
    namedSlots := component.namedSlots
    propTypes := component.propTypes }

theorem visibleText_append (first second : List Char) :
    visibleText (first ++ second) = visibleText first ++ visibleText second := by
  simp [visibleText]

theorem visibleText_of_isWhitespace {text : List Char}
    (all : ∀ character ∈ text, isWhitespace character) : visibleText text = [] := by
  rw [visibleText, List.filter_eq_nil_iff.mpr (by simpa using all), List.map_nil]

theorem visibleText_trimEnds (text : List Char) :
    visibleText (trimEnds isWhitespace text) = visibleText text := by
  obtain ⟨before, after, whole, allBefore, allAfter⟩ := exists_eq_append_trimEnds isWhitespace text
  conv_rhs => rw [whole]
  rw [visibleText_append, visibleText_append, visibleText_of_isWhitespace allBefore,
    visibleText_of_isWhitespace allAfter, List.nil_append, List.append_nil]

theorem visibleText_flatten (text : List Char) :
    visibleText (WhitespacePolicy.flatten text) = visibleText text := by
  induction text with
  | nil => rfl
  | cons character rest ih =>
      have single (first : Char) (later : List Char) :
          visibleText (first :: later) = visibleText [first] ++ visibleText later :=
        visibleText_append [first] later
      have space : visibleText [' '] = [] := rfl
      rw [WhitespacePolicy.flatten, single character]
      cases isSpace : isWhitespace character with
      | false =>
          rw [if_neg (by simp), single, ih]
      | true =>
          have nothing : visibleText [character] = [] :=
            visibleText_of_isWhitespace (by simpa using isSpace)
          rw [if_pos rfl, nothing]
          split
          · exact ih
          · rw [single, space, ih]

theorem visibleText_edge (strip isPresent : Bool) :
    visibleText (WhitespacePolicy.edge strip isPresent) = [] := by
  unfold WhitespacePolicy.edge
  split <;> rfl

/-- A policy changes nothing but white space. -/
theorem WhitespacePolicy.visibleText_apply (policy : WhitespacePolicy) (text : List Char) :
    visibleText (policy.apply text) = visibleText text := by
  rw [← visibleText_trimEnds text, apply]
  split
  · next noCore =>
      rw [List.isEmpty_iff.mp noCore]
      exact visibleText_edge _ _
  · rw [visibleText_append, visibleText_append, visibleText_edge, visibleText_edge,
      List.nil_append, List.append_nil]
    split
    · exact visibleText_flatten _
    · rfl

theorem Tag.reword_unplaced_idem (tag : Tag) :
    (tag.reword .unplaced).reword .unplaced = tag.reword .unplaced := by
  have plain : StaticAttribute.reword .unplaced ∘ StaticAttribute.reword .unplaced =
      StaticAttribute.reword .unplaced := by
    funext written
    cases written with
    | mk name value position => cases value <;> rfl
  have directive : Directive.reword .unplaced ∘ Directive.reword .unplaced =
      Directive.reword .unplaced := by
    funext written
    cases written with
    | mk name modifier value referencesProps isAsync position =>
        cases modifier <;> cases value <;> rfl
  unfold reword
  rw [List.map_map, List.map_map, plain, directive]
  rfl

theorem Node.visible_reword (node : Node) : (node.reword .unplaced).visible = node.visible := by
  induction node using Node.induction with
  | text content position => rfl
  | element tag children ih =>
      rw [reword, visible, visible, Tag.reword_unplaced_idem, rewordAll_eq_map,
        visibleAll_eq_flatMap, visibleAll_eq_flatMap, List.flatMap_map]
      congr 2
      exact List.flatMap_congr ih

theorem NameSet.reword_unplaced (set : NameSet) : set.reword .unplaced = set :=
  NameSet.eq_of_names (List.map_id set.names)

theorem NameMap.names_reword_unplaced {α β : Type} (change : α → β) (map : NameMap α) :
    (map.reword .unplaced change).names = map.names :=
  (map_fst_map_rewordEntry .unplaced change map.entries).trans (List.map_id _)

theorem Component.visible_reword (component : Component) :
    (component.reword .unplaced).visible = component.visible := by
  have children : Node.visibleAll (Node.rewordAll .unplaced component.root.children) =
      Node.visibleAll component.root.children := by
    rw [Node.rewordAll_eq_map, Node.visibleAll_eq_flatMap, Node.visibleAll_eq_flatMap,
      List.flatMap_map]
    exact List.flatMap_congr fun node _ => node.visible_reword
  have types : component.propTypes.map Rewording.unplaced.text = component.propTypes :=
    congrFun Option.map_id component.propTypes
  simp only [reword, visible, Element.reword, children, Tag.reword_unplaced_idem,
    NameSet.reword_unplaced, types]

theorem Template.map_visible_inlineComponent?_reword (template : Template) (name : String) :
    ((template.reword .unplaced).inlineComponent? name).map Component.visible =
      (template.inlineComponent? name).map Component.visible := by
  have found : (template.reword .unplaced).inlineComponent? name =
      (template.inlineComponent? name).map (·.reword .unplaced) :=
    NameMap.find?_reword .unplaced _ template.inlineComponents name
  rw [found, Option.map_map]
  exact congrArg (Option.map · _) (funext Component.visible_reword)

end TemplateMarkup
