import TemplateMarkup.Document.Encode
import TemplateMarkup.Proofs.Document.Positions
import TemplateMarkup.Proofs.Json.Codec

/-!
# Encoded records

A record is an object whose members have the names of its fields, in their order, apart from those
that are left out.  So no name comes twice.  There are no numbers among the values, since positions
are strings.
-/

namespace TemplateMarkup

/-- The members of an object. -/
def Json.members : Json → List (String × Json)
  | .object members => members
  | _ => []

def Json.names (value : Json) : List String := value.members.map Prod.fst

open Json

theorem StaticAttribute.names_encode (written : StaticAttribute) :
    written.encode.names.Sublist ["name", "value", "position"] := by
  rw [names, encode, members, List.map_append, List.map_cons]
  exact ((names_optionalMember _).cons_cons "name").append (List.Sublist.refl ["position"])

theorem Directive.names_encode (directive : Directive) :
    directive.encode.names.Sublist ["name", "modifier", "expressionValue",
      "doesExpressionReferenceProps", "isExpressionAsync", "position"] := by
  rw [names, encode, members]
  simp only [List.map_append, List.map_cons]
  exact (((((names_optionalMember _).cons_cons "name").append (names_optionalMember _)).append
    (names_flagMember _)).append (names_flagMember _)).append (List.Sublist.refl ["position"])

theorem Tag.names_encodeElement (tag : Tag) (children : List Json) :
    (tag.encodeElement children).names.Sublist
      ["tagName", "staticAttributes", "renderAttributes", "children", "position"] := by
  rw [names, encodeElement, members]
  simp only [List.map_append, List.map_cons]
  exact ((((names_listMember _).cons_cons "tagName").append (names_listMember _)).append
    (names_listMember _)).append (List.Sublist.refl ["position"])

theorem Component.names_encode (component : Component) :
    component.encode.names.Sublist ["rootNode", "hasDefaultSlot", "namedSlots", "propTypesJSDoc"] := by
  rw [names, encode, members]
  simp only [List.map_append, List.map_cons]
  exact (((names_flagMember _).cons_cons "rootNode").append (names_listMember _)).append
    (names_optionalMember _)

theorem Bucket.names_encode (bucket : Bucket) :
    bucket.encode.names.Sublist ["scripts", "styles"] := by
  rw [names, encode, members, List.map_append]
  exact (names_listMember _).append (names_listMember _)

theorem ComponentImport.names_encode (imported : ComponentImport) :
    imported.encode.names.Sublist ["importName", "path", "position"] := by
  rw [names, encode, members, List.map_append]
  exact (names_optionalMember _).append (List.Sublist.refl ["path", "position"])

theorem Template.names_encode (template : Template) :
    template.encode.names.Sublist
      ["sourceFilePath", "mainComponent", "inlineComponents", "assets", "componentImports"] := by
  rw [names, encode, members]
  simp only [List.map_append]
  exact ((((names_optionalMember _).append (List.Sublist.refl ["mainComponent"])).append
    (names_objectMember _)).append (names_objectMember _)).append (names_listMember _)

theorem Script.distinct_encode (script : Script) : script.encode.names.Nodup := by
  rcases script with ⟨source, scope, position⟩
  cases source with
  | content text => exact (by decide : ["content", "scope", "position"].Nodup)
  | path location => exact (by decide : ["path", "scope", "position"].Nodup)

theorem Style.distinct_encode (style : Style) : style.encode.names.Nodup := by
  rcases style with ⟨source, position⟩
  cases source with
  | content text => exact (by decide : ["content", "position"].Nodup)
  | path location => exact (by decide : ["path", "position"].Nodup)

theorem StaticAttribute.isNumberless_encode (written : StaticAttribute) :
    written.encode.isNumberless = true := by
  rw [encode, Json.isNumberless_object_iff]
  simp [Json.isNumberless, Position.encode]

theorem Directive.isNumberless_encode (directive : Directive) :
    directive.encode.isNumberless = true := by
  rw [encode, Json.isNumberless_object_iff]
  simp [Json.isNumberless, Position.encode]

theorem Node.encodeAll_eq_map (nodes : List Node) : encodeAll nodes = nodes.map encode := by
  induction nodes with
  | nil => rfl
  | cons node rest ih => rw [encodeAll, ih, List.map_cons]

theorem Node.isNumberless_encode (node : Node) : node.encode.isNumberless = true := by
  induction node using Node.induction with
  | text content position =>
      rw [encode, Json.isNumberless_object_iff]
      simp [Json.isNumberless, Position.encode]
  | element tag children ih =>
      rw [encode, encodeAll_eq_map, Tag.encodeElement, Json.isNumberless_object_iff]
      simp only [Json.allMembers_append, Json.allMembers_cons, Json.allMembers_listMember,
        Json.isNumberless_array_iff, List.forall_mem_map]
      refine ⟨⟨⟨⟨rfl, ?_⟩, ?_⟩, fun _ => ih⟩, rfl, Json.allMembers_nil⟩
      · exact fun _ written _ => written.isNumberless_encode
      · exact fun _ directive _ => directive.isNumberless_encode

theorem Element.isNumberless_encode (element : Element) : element.encode.isNumberless = true :=
  element.toNode.isNumberless_encode

theorem Component.isNumberless_encode (component : Component) :
    component.encode.isNumberless = true := by
  rw [encode, Json.isNumberless_object_iff]
  simp only [Json.allMembers_append, Json.allMembers_cons, Json.allMembers_flagMember,
    Json.allMembers_listMember, Json.allMembers_optionalMember, Json.isNumberless_array_iff,
    List.forall_mem_map]
  refine ⟨⟨⟨component.root.isNumberless_encode, fun _ => rfl⟩, fun _ _ _ => rfl⟩, ?_⟩
  simp [Json.isNumberless]

theorem Script.isNumberless_encode (script : Script) : script.encode.isNumberless = true := by
  rcases script with ⟨source, scope, position⟩
  cases source <;> rfl

theorem Style.isNumberless_encode (style : Style) : style.encode.isNumberless = true := by
  rcases style with ⟨source, position⟩
  cases source <;> rfl

theorem Bucket.isNumberless_encode (bucket : Bucket) : bucket.encode.isNumberless = true := by
  rw [encode, Json.isNumberless_object_iff]
  simp only [Json.allMembers_append, Json.allMembers_listMember, Json.isNumberless_array_iff,
    List.forall_mem_map]
  exact ⟨fun _ script _ => script.isNumberless_encode, fun _ style _ => style.isNumberless_encode⟩

theorem ComponentImport.isNumberless_encode (imported : ComponentImport) :
    imported.encode.isNumberless = true := by
  rcases imported with ⟨name, path, position⟩
  cases name <;> rfl

theorem NameMap.isNumberless_encodeMembers {α : Type} (map : NameMap α) {encode : α → Json}
    (each : ∀ value, (encode value).isNumberless = true) :
    (Json.object (map.encodeMembers encode)).isNumberless = true := by
  rw [Json.isNumberless_object_iff]
  exact List.forall_mem_map.mpr fun entry _ => each entry.2

theorem Template.isNumberless_encode (template : Template) :
    template.encode.isNumberless = true := by
  rw [encode, Json.isNumberless_object_iff]
  simp only [Json.allMembers_append, Json.allMembers_cons, Json.allMembers_optionalMember,
    Json.allMembers_objectMember, Json.allMembers_listMember, Json.isNumberless_array_iff,
    List.forall_mem_map]
  refine ⟨⟨⟨⟨?_, template.main.isNumberless_encode, Json.allMembers_nil⟩, ?_⟩, ?_⟩, ?_⟩
  · simp [Json.isNumberless]
  · exact fun _ => template.inlineComponents.isNumberless_encodeMembers
      Component.isNumberless_encode
  · exact fun _ => template.buckets.isNumberless_encodeMembers Bucket.isNumberless_encode
  · exact fun _ imported _ => imported.isNumberless_encode

end TemplateMarkup
