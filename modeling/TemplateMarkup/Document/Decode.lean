import TemplateMarkup.Document.Basic
import TemplateMarkup.Json.Decode

/-!
# Templates from JSON texts

Decoders for every part of a template.  They accept what encoding produces and more: members in any
order, members that mean nothing, and records written as arrays.  Nothing is computed anew, so flags
are taken as they stand.
-/

namespace TemplateMarkup

open Decoder

def Position.decode : Decoder Position := fun depth outline => do
  let text ← Decoder.string depth outline
  match Position.read? text with
  | some position => return position
  | none => .error .mismatched

def Span.decode : Decoder Span :=
  record ["start", "end"] fun depth fields =>
    Span.mk <$> fields.required "start" (word depth) <*> fields.required "end" (word depth)

def StaticAttribute.decode : Decoder StaticAttribute :=
  record ["name", "value", "position"] fun depth fields =>
    StaticAttribute.mk <$> fields.required "name" (string depth) <*>
      fields.field "value" (some none) (nullable string depth) <*>
      fields.required "position" (Position.decode depth)

def Directive.decode : Decoder Directive :=
  record ["name", "modifier", "expressionValue", "doesExpressionReferenceProps",
      "isExpressionAsync", "position"] fun depth fields =>
    Directive.mk <$> fields.required "name" (string depth) <*>
      fields.field "modifier" (some none) (nullable string depth) <*>
      fields.field "expressionValue" (some none) (nullable string depth) <*>
      fields.field "doesExpressionReferenceProps" (some false) (bool depth) <*>
      fields.field "isExpressionAsync" (some false) (bool depth) <*>
      fields.required "position" (Position.decode depth)

/-- An element, given a decoder for the list of its children. -/
def Element.decodeWith (children : Decoder (List Node)) : Decoder Element :=
  record ["tagName", "staticAttributes", "renderAttributes", "children", "position"]
    fun depth fields =>
      (fun name attributes directives children position =>
          ⟨⟨name, attributes, directives, position⟩, children⟩) <$>
        fields.required "tagName" (string depth) <*>
        fields.field "staticAttributes" (some []) (list StaticAttribute.decode depth) <*>
        fields.field "renderAttributes" (some []) (list Directive.decode depth) <*>
        fields.field "children" (some []) (children depth) <*>
        fields.required "position" (Position.decode depth)

namespace Node

def decodeText : Decoder Node :=
  record ["textContent", "position"] fun depth fields =>
    Node.text <$> fields.required "textContent" (string depth) <*>
      fields.required "position" (Position.decode depth)

/-- A text, or else an element, given a decoder for the list of its children.  The whole value is read
before either is tried, so every fault of form comes first. -/
def decodeWith (children : Decoder (List Node)) : Decoder Node := fun depth outline =>
  if outline.isSound depth then
    match decodeText depth outline with
    | .ok node => .ok node
    | .error _ =>
        match Element.decodeWith children depth outline with
        | .ok whole => .ok whole.toNode
        | .error _ => .error .mismatched
  else
    .error .malformed

/-- A node.  Its children are two containers further down. -/
def decode : Decoder Node
  | 0 => decodeWith (fun _ => refuse) 0
  | 1 => decodeWith (fun _ => refuse) 1
  | depth + 2 => decodeWith (fun _ => list (fun _ => decode depth) (depth + 1)) (depth + 2)

end Node

def Element.decode : Decoder Element := Element.decodeWith (list Node.decode)

def Component.decode : Decoder Component :=
  record ["rootNode", "hasDefaultSlot", "namedSlots", "propTypesJSDoc"] fun depth fields =>
    Component.mk <$> fields.required "rootNode" (Element.decode depth) <*>
      fields.field "hasDefaultSlot" (some false) (bool depth) <*>
      fields.field "namedSlots" (some .empty)
        (fun outline => NameSet.ofList <$> list string depth outline) <*>
      fields.field "propTypesJSDoc" (some none) (nullable string depth)

namespace AssetSource

/-- The first member that says where an asset is. -/
def fromMembers (depth : Nat) : List (Option String × Outline) → Except DecodeFault AssetSource
  | [] => .error .mismatched
  | (name, outline) :: rest =>
      if name = some "content" then content <$> string depth outline
      else if name = some "path" then path <$> string depth outline
      else fromMembers depth rest

/-- Where the asset of a record is.  This is found out after the end of the record. -/
def decode (depth : Nat) : Fields → Placed AssetSource
  | .members list _ => .atPlace (list.length + 1) (fromMembers depth list)
  | .items _ list _ => .fault (list.length + 1) .mismatched

end AssetSource

def Script.decode : Decoder Script :=
  openRecord ["scope", "position"] fun depth fields =>
    Script.mk <$> AssetSource.decode depth fields <*>
      fields.required "scope" (string depth) <*>
      fields.required "position" (Position.decode depth)

def Style.decode : Decoder Style :=
  openRecord ["position"] fun depth fields =>
    Style.mk <$> AssetSource.decode depth fields <*>
      fields.required "position" (Position.decode depth)

def Bucket.decode : Decoder Bucket :=
  record ["scripts", "styles"] fun depth fields =>
    Bucket.mk <$> fields.field "scripts" (some []) (list Script.decode depth) <*>
      fields.field "styles" (some []) (list Style.decode depth)

def ComponentImport.decode : Decoder ComponentImport :=
  record ["importName", "path", "position"] fun depth fields =>
    ComponentImport.mk <$> fields.field "importName" (some none) (nullable string depth) <*>
      fields.required "path" (string depth) <*>
      fields.required "position" (Position.decode depth)

def Template.decode : Decoder Template :=
  record ["sourceFilePath", "mainComponent", "inlineComponents", "assets", "componentImports"]
    fun depth fields =>
      Template.mk <$> fields.field "sourceFilePath" (some none) (nullable string depth) <*>
        fields.required "mainComponent" (Component.decode depth) <*>
        fields.field "inlineComponents" (some .empty) (nameMap Component.decode depth) <*>
        fields.field "assets" (some .empty) (nameMap Bucket.decode depth) <*>
        fields.field "componentImports" (some []) (list ComponentImport.decode depth)

end TemplateMarkup
