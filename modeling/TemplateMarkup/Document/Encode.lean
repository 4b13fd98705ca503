import TemplateMarkup.Document.Basic
import TemplateMarkup.Json.Basic

/-!
# Templates as JSON values

Every part of a template is an object whose members are in a fixed order.  An absent value, an empty
list and a flag that is not set are left out.
-/

namespace TemplateMarkup

/-- A position is a string in its written form. -/
def Position.encode (position : Position) : Json := .string position.render

def Span.encode (span : Span) : Json :=
  .object [("start", .number span.start.toNat), ("end", .number span.stop.toNat)]

def StaticAttribute.encode (written : StaticAttribute) : Json :=
  .object
    (("name", .string written.name) ::
      Json.optionalMember "value" (written.value.map .string) ++
      [("position", written.position.encode)])

def Directive.encode (directive : Directive) : Json :=
  .object
    (("name", .string directive.name) ::
      Json.optionalMember "modifier" (directive.modifier.map .string) ++
      Json.optionalMember "expressionValue" (directive.value.map .string) ++
      Json.flagMember "doesExpressionReferenceProps" directive.referencesProps ++
      Json.flagMember "isExpressionAsync" directive.isAsync ++
      [("position", directive.position.encode)])

/-- The object of an element with the given tag and encoded children. -/
def Tag.encodeElement (tag : Tag) (children : List Json) : Json :=
  .object
    (("tagName", .string tag.name) ::
      Json.listMember "staticAttributes" (tag.attributes.map (·.encode)) ++
      Json.listMember "renderAttributes" (tag.directives.map (·.encode)) ++
      Json.listMember "children" children ++
      [("position", tag.position.encode)])

namespace Node

mutual

def encode : Node → Json
  | .text content position =>
      .object [("textContent", .string content), ("position", position.encode)]
  | .element tag children => tag.encodeElement (encodeAll children)

def encodeAll : List Node → List Json
  | [] => []
  | node :: rest => node.encode :: encodeAll rest

end

end Node

def Element.encode (element : Element) : Json :=
  element.tag.encodeElement (Node.encodeAll element.children)

def Component.encode (component : Component) : Json :=
  .object
    (("rootNode", component.root.encode) ::
      Json.flagMember "hasDefaultSlot" component.hasDefaultSlot ++
      Json.listMember "namedSlots" (component.namedSlots.names.map .string) ++
      Json.optionalMember "propTypesJSDoc" (component.propTypes.map .string))

def AssetSource.encodeMember : AssetSource → String × Json
  | .content text => ("content", .string text)
  | .path location => ("path", .string location)

def Script.encode (script : Script) : Json :=
  .object
    [script.source.encodeMember, ("scope", .string script.scope),
      ("position", script.position.encode)]

def Style.encode (style : Style) : Json :=
  .object [style.source.encodeMember, ("position", style.position.encode)]

def Bucket.encode (bucket : Bucket) : Json :=
  .object
    (Json.listMember "scripts" (bucket.scripts.map (·.encode)) ++
      Json.listMember "styles" (bucket.styles.map (·.encode)))

def ComponentImport.encode (imported : ComponentImport) : Json :=
  .object
    (Json.optionalMember "importName" (imported.name.map .string) ++
      [("path", .string imported.path), ("position", imported.position.encode)])

def NameMap.encodeMembers {α : Type} (map : NameMap α) (encode : α → Json) :
    List (String × Json) :=
  map.entries.map fun (name, value) => (name, encode value)

def Template.encode (template : Template) : Json :=
  .object
    (Json.optionalMember "sourceFilePath" (template.sourcePath.map .string) ++
      [("mainComponent", template.main.encode)] ++
      Json.objectMember "inlineComponents" (template.inlineComponents.encodeMembers (·.encode)) ++
      Json.objectMember "assets" (template.buckets.encodeMembers (·.encode)) ++
      Json.listMember "componentImports" (template.imports.map (·.encode)))

end TemplateMarkup
