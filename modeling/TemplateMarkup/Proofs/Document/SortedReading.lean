import TemplateMarkup.Proofs.Document.RoundTrip
import TemplateMarkup.Proofs.Json.SortedReading

/-!
# Templates with sorted members

A template is read back from its encoded form even if the members of all objects have been sorted.  Its
parts are records, for which the order makes no difference.  The inline components and the buckets are
entries of maps, so they come in the order of their names then.
-/

namespace TemplateMarkup

open Decoder

theorem Position.readsSorted (depth : Nat) (written : Json) : ReadsSorted decode depth written := by
  cases written <;> rfl

theorem StaticAttribute.readsSorted (depth : Nat) (written : StaticAttribute) :
    ReadsSorted decode depth written.encode := by
  have distinct := written.names_encode.nodup (by decide)
  refine record_readsSorted distinct fun inner _ => .seq (.seq (.map _ (.required distinct ?_))
    (.field distinct ?_)) (.required distinct ?_)
  · exact fun part _ => string_readsSorted inner part
  · exact fun part _ => nullable_readsSorted (string_readsSorted inner part)
  · exact fun part _ => Position.readsSorted inner part

theorem Directive.readsSorted (depth : Nat) (directive : Directive) :
    ReadsSorted decode depth directive.encode := by
  have distinct := directive.names_encode.nodup (by decide)
  refine record_readsSorted distinct fun inner _ => .seq (.seq (.seq (.seq (.seq (.map _
    (.required distinct ?_)) (.field distinct ?_)) (.field distinct ?_)) (.field distinct ?_))
    (.field distinct ?_)) (.required distinct ?_)
  · exact fun part _ => string_readsSorted inner part
  · exact fun part _ => nullable_readsSorted (string_readsSorted inner part)
  · exact fun part _ => nullable_readsSorted (string_readsSorted inner part)
  · exact fun part _ => bool_readsSorted inner part
  · exact fun part _ => bool_readsSorted inner part
  · exact fun part _ => Position.readsSorted inner part

/-- A list member is read as before if each of its items is. -/
theorem Decoder.listMember_readsSorted {α β : Type} {decode : Decoder α} {encode : β → Json}
    {depth : Nat} {name : String} {values : List β} {members : List (String × Json)}
    (found : members.lookup name = (Json.listMember name (values.map encode)).lookup name)
    (each : ∀ inner, depth = inner + 1 →
      ∀ value ∈ values, ReadsSorted decode inner (encode value)) :
    ∀ part, members.lookup name = some part → ReadsSorted (list decode) depth part := by
  intro part isPart
  rw [isPart, Json.lookup_listMember] at found
  split at found
  · cases found
    exact list_readsSorted fun inner isInner => List.forall_mem_map.mpr (each inner isInner)
  · cases found

/-- The decoder reads lists of encoded nodes as before. -/
def ReadsSortedChildren (children : Decoder (List Node)) (depth : Nat) : Prop :=
  ∀ inner, depth = inner + 1 → ∀ nodes : List Node,
    ReadsSorted children inner (.array (nodes.map Node.encode))

theorem Element.decodeWith_readsSorted {children : Decoder (List Node)} {depth : Nat}
    (reads : ReadsSortedChildren children depth) (tag : Tag) (nodes : List Node) :
    ReadsSorted (decodeWith children) depth (tag.encodeElement (nodes.map Node.encode)) := by
  have distinct := (tag.names_encodeElement (nodes.map Node.encode)).nodup (by decide)
  have attributes : (tag.encodeElement (nodes.map Node.encode)).members.lookup "staticAttributes" =
      (Json.listMember "staticAttributes" (tag.attributes.map StaticAttribute.encode)).lookup
        "staticAttributes" := by
    simp [Json.members, Tag.encodeElement, List.lookup_append]
  have directives : (tag.encodeElement (nodes.map Node.encode)).members.lookup "renderAttributes" =
      (Json.listMember "renderAttributes" (tag.directives.map Directive.encode)).lookup
        "renderAttributes" := by
    simp [Json.members, Tag.encodeElement, List.lookup_append]
  refine record_readsSorted distinct fun inner isInner => .seq (.seq (.seq (.seq (.map _
    (.required distinct ?_)) (.field distinct ?_)) (.field distinct ?_)) (.field distinct ?_))
    (.required distinct ?_)
  · exact fun part _ => string_readsSorted inner part
  · exact listMember_readsSorted attributes fun deeper _ written _ =>
      StaticAttribute.readsSorted deeper written
  · exact listMember_readsSorted directives fun deeper _ directive _ =>
      Directive.readsSorted deeper directive
  · intro part isPart
    cases nodes with
    | nil => simp [Json.members, Tag.encodeElement, List.lookup_append] at isPart
    | cons node rest =>
        have isList : Json.array ((node :: rest).map Node.encode) = part := by
          simpa [Json.members, Tag.encodeElement, List.lookup_append] using isPart
        rw [← isList]
        exact reads inner isInner (node :: rest)
  · exact fun part _ => Position.readsSorted inner part

namespace Node

/-- A text is looked for as before in any object. -/
theorem decodeText_readsSorted {members : List (String × Json)}
    (distinct : (members.map Prod.fst).Nodup) (depth : Nat) :
    ReadsSorted decodeText depth (.object members) := by
  refine record_readsSorted distinct fun inner _ => .seq (.map _ (.required distinct ?_))
    (.required distinct ?_)
  · exact fun part _ => string_readsSorted inner part
  · exact fun part _ => Position.readsSorted inner part

theorem toOption_decodeWith (children : Decoder (List Node)) (depth : Nat) (outline : Outline) :
    (decodeWith children depth outline).toOption =
      if outline.isSound depth then (decodeText depth outline).toOption.or
        ((Element.decodeWith children depth outline).toOption.map Element.toNode)
      else none := by
  unfold decodeWith
  split
  · cases decodeText depth outline with
    | ok node => rfl
    | error fault => cases Element.decodeWith children depth outline <;> rfl
  · rfl

theorem decodeWith_readsSorted {children : Decoder (List Node)} {depth : Nat}
    (reads : ReadsSortedChildren children depth) (node : Node) :
    ReadsSorted (decodeWith children) depth node.encode := by
  have sound := node.encode.isSound_outline_sorted depth
  have parts : ReadsSorted decodeText depth node.encode ∧
      ReadsSorted (Element.decodeWith children) depth node.encode := by
    cases node with
    | text content position =>
        have distinct : ((text content position).encode.members.map Prod.fst).Nodup :=
          (by decide : (["textContent", "position"] : List String).Nodup)
        refine ⟨decodeText_readsSorted distinct depth, ?_⟩
        refine record_readsSorted distinct fun inner _ => ?_
        -- Hardly any of the members of an element is there.
        refine .seq (.seq (.seq (.seq (.map _ (.required distinct ?_)) (.field distinct ?_))
          (.field distinct ?_)) (.field distinct ?_)) (.required distinct ?_)
        · exact fun part _ => string_readsSorted inner part
        · exact fun part isPart => by simp [Json.members, encode] at isPart
        · exact fun part isPart => by simp [Json.members, encode] at isPart
        · exact fun part isPart => by simp [Json.members, encode] at isPart
        · exact fun part _ => Position.readsSorted inner part
    | element tag nodes =>
        rw [encode, encodeAll_eq_map]
        have distinct := (tag.names_encodeElement (nodes.map encode)).nodup (by decide)
        exact ⟨decodeText_readsSorted distinct depth,
          Element.decodeWith_readsSorted reads tag nodes⟩
  unfold ReadsSorted at parts ⊢
  rw [toOption_decodeWith, toOption_decodeWith, sound, parts.1, parts.2]

theorem readsSorted (depth : Nat) : ∀ node : Node, ReadsSorted decode depth node.encode := by
  induction depth using Nat.twoStepInduction with
  | zero =>
      refine decodeWith_readsSorted fun inner isZero => ?_
      cases isZero
  | one =>
      refine decodeWith_readsSorted fun inner _ nodes => ?_
      exact (toOption_refuse _).trans (toOption_refuse _).symm
  | more depth ih _ =>
      refine decodeWith_readsSorted ?_
      rintro inner ⟨⟩ nodes
      refine list_readsSorted ?_
      rintro deeper ⟨⟩
      exact List.forall_mem_map.mpr fun node _ => ih node

end Node

theorem Element.readsSorted (depth : Nat) (element : Element) :
    ReadsSorted decode depth element.encode := by
  rw [encode, Node.encodeAll_eq_map]
  refine decodeWith_readsSorted (fun inner _ nodes => ?_) element.tag element.children
  exact list_readsSorted fun deeper _ => List.forall_mem_map.mpr fun node _ =>
    node.readsSorted deeper

theorem Component.readsSorted (depth : Nat) (component : Component) :
    ReadsSorted decode depth component.encode := by
  have distinct := component.names_encode.nodup (by decide)
  refine record_readsSorted distinct fun inner _ => .seq (.seq (.seq (.map _
    (.required distinct ?_)) (.field distinct ?_)) (.field distinct ?_)) (.field distinct ?_)
  · intro part isPart
    have isRoot : component.root.encode = part := by
      simpa [Json.members, encode] using isPart
    rw [← isRoot]
    exact component.root.readsSorted inner
  · exact fun part _ => bool_readsSorted inner part
  · intro part isPart
    have slots : component.encode.members.lookup "namedSlots" =
        (Json.listMember "namedSlots" (component.namedSlots.names.map Json.string)).lookup
          "namedSlots" := by
      simp [Json.members, encode, List.lookup_append]
    have reads : ReadsSorted (list string) inner part :=
      listMember_readsSorted slots (fun deeper _ name _ => string_readsSorted deeper _) part isPart
    unfold ReadsSorted at reads
    rw [toOption_map, toOption_map, reads]
  · exact fun part _ => nullable_readsSorted (string_readsSorted inner part)

/-- The member that says where an asset is comes first even among sorted members. -/
theorem AssetSource.readsSorted (source : AssetSource) {rest : List (String × Json)} (depth : Nat)
    (known : ∀ member ∈ rest, member.1 ∈ ["scope", "position"]) :
    Fields.ReadsSorted (source.encodeMember :: rest) (decode depth) := by
  have first : Json.sortMember source.encodeMember = source.encodeMember := by
    cases source <;> rfl
  have smaller : ∀ name ∈ ["scope", "position"], source.encodeMember.1 < name := by
    cases source with
    | content text => exact (by decide : ∀ name ∈ ["scope", "position"], "content" < name)
    | path location => exact (by decide : ∀ name ∈ ["scope", "position"], "path" < name)
  have stays : Json.sortedMembers (source.encodeMember :: rest) =
      source.encodeMember :: Json.sortedMembers rest := by
    rw [Json.sortedMembers_eq_insertionSort, Json.sortedMembers_eq_insertionSort, List.map_cons,
      first, List.insertionSort_cons_of_forall_rel]
    exact List.forall_mem_map.mpr fun member isMember => smaller member.1 (known member isMember)
  unfold Fields.ReadsSorted
  rw [stays, decode_ofMembers, decode_ofMembers]

theorem Script.readsSorted (depth : Nat) (script : Script) :
    ReadsSorted decode depth script.encode := by
  have distinct := script.distinct_encode
  refine openRecord_readsSorted distinct (fun _ => AssetSource.isSound_of_not_mem (by simp))
    fun inner _ => .seq (.seq (.map _ ?_) (.required distinct ?_)) (.required distinct ?_)
  · exact script.source.readsSorted inner (by simp)
  · exact fun part _ => string_readsSorted inner part
  · exact fun part _ => Position.readsSorted inner part

theorem Style.readsSorted (depth : Nat) (style : Style) :
    ReadsSorted decode depth style.encode := by
  have distinct := style.distinct_encode
  refine openRecord_readsSorted distinct (fun _ => AssetSource.isSound_of_not_mem (by simp))
    fun inner _ => .seq (.map _ ?_) (.required distinct ?_)
  · exact style.source.readsSorted inner (by simp)
  · exact fun part _ => Position.readsSorted inner part

theorem Bucket.readsSorted (depth : Nat) (bucket : Bucket) :
    ReadsSorted decode depth bucket.encode := by
  have distinct := bucket.names_encode.nodup (by decide)
  have scripts : bucket.encode.members.lookup "scripts" =
      (Json.listMember "scripts" (bucket.scripts.map Script.encode)).lookup "scripts" := by
    simp [Json.members, encode, List.lookup_append]
  have styles : bucket.encode.members.lookup "styles" =
      (Json.listMember "styles" (bucket.styles.map Style.encode)).lookup "styles" := by
    simp [Json.members, encode, List.lookup_append]
  refine record_readsSorted distinct fun inner _ => .seq (.map _ (.field distinct ?_))
    (.field distinct ?_)
  · exact listMember_readsSorted scripts fun deeper _ script _ => Script.readsSorted deeper script
  · exact listMember_readsSorted styles fun deeper _ style _ => Style.readsSorted deeper style

theorem ComponentImport.readsSorted (depth : Nat) (imported : ComponentImport) :
    ReadsSorted decode depth imported.encode := by
  have distinct := imported.names_encode.nodup (by decide)
  refine record_readsSorted distinct fun inner _ => .seq (.seq (.map _ (.field distinct ?_))
    (.required distinct ?_)) (.required distinct ?_)
  · exact fun part _ => nullable_readsSorted (string_readsSorted inner part)
  · exact fun part _ => string_readsSorted inner part
  · exact fun part _ => Position.readsSorted inner part

namespace NameMap

variable {α : Type}

/-- The same entries in the order of their names. -/
def byName (map : NameMap α) : NameMap α where
  entries := map.entries.insertionSort fun first second => first.1 < second.1
  distinct := ((List.perm_insertionSort _ _).map Prod.fst).nodup_iff.mpr map.distinct

theorem perm_byName (map : NameMap α) : map.byName.entries.Perm map.entries :=
  List.perm_insertionSort _ _

/-- To sort the members that a map is written as is to sort its entries. -/
theorem sortedMembers_encodeMembers (map : NameMap α) (encode : α → Json) :
    Json.sortedMembers (map.encodeMembers encode) =
      map.byName.encodeMembers fun value => (encode value).sorted := by
  rw [Json.sortedMembers_eq_insertionSort, encodeMembers, encodeMembers, byName, List.map_map,
    List.map_insertionSort _ (fun first second => first.1 < second.1)]
  · rfl
  · exact fun _ _ _ _ => Iff.rfl

end NameMap

namespace Template

/-- The template with its components and its buckets in the order of their names. -/
def byName (template : Template) : Template :=
  { template with
    inlineComponents := template.inlineComponents.byName
    buckets := template.buckets.byName }

/-- With sorted members, a template is read as one that is in the order of names. -/
theorem decode_sorted {template : Template} {depth : Nat}
    (readable : AreReadable template.positions) (fits : template.encode.nesting ≤ depth) :
    decode depth template.encode.sorted.outline = .ok template.byName := by
  have distinct := template.names_encode.nodup (by decide)
  have fits := (Json.nesting_sorted_le_iff _ _).mpr fits
  rcases template with ⟨sourcePath, main, inlineComponents, buckets, imports⟩
  simp only [positions, areReadable_append, areReadable_map, areReadable_flatMap] at readable
  obtain ⟨⟨⟨readableMain, readableComponents⟩, readableBuckets⟩, readableImports⟩ := readable
  rw [encode, Json.sorted] at fits ⊢
  obtain ⟨inner, rfl, inside⟩ := Json.exists_depth_of_object fits
  have found (name : String) := Json.lookup_sortedMembers distinct name
  have components := fun deeper => (Component.undoes deeper).sorted (Component.readsSorted deeper)
  have assets := fun deeper => (Bucket.undoes deeper).sorted (Bucket.readsSorted deeper)
  have imported := fun deeper =>
    (ComponentImport.undoes deeper).sorted (ComponentImport.readsSorted deeper)
  refine record_ofMembers (Json.distinct_sortedMembers distinct) (Placed.seq_ok (Placed.seq_ok
    (Placed.seq_ok (Placed.seq_ok (Placed.map_ok ?_) ?_) ?_) ?_) ?_)
  · refine optional_ofMembers inside ((found "sourceFilePath").trans ?_)
    cases sourcePath <;> simp [Json.members, encode, List.lookup_append, Json.sorted]
  · refine required_ofMembers (components inner) inside ((found "mainComponent").trans ?_)
      readableMain
    simp [Json.members, encode, List.lookup_append]
  · refine nameMap_ofMembers (fun deeper _ => components deeper) inside
      ((found "inlineComponents").trans ?_) ?_
    · rw [← NameMap.sortedMembers_encodeMembers, ← Json.map_lookup_objectMember]
      simp [Json.members, encode, List.lookup_append]
    · intro entry member
      exact readableComponents entry ((NameMap.perm_byName _).mem_iff.mp member)
  · refine nameMap_ofMembers (fun deeper _ => assets deeper) inside ((found "assets").trans ?_) ?_
    · rw [← NameMap.sortedMembers_encodeMembers, ← Json.map_lookup_objectMember]
      simp [Json.members, encode, List.lookup_append]
    · intro entry member
      exact readableBuckets entry ((NameMap.perm_byName _).mem_iff.mp member)
  · refine list_ofMembers (list_undoes fun deeper _ => imported deeper) inside
      ((found "componentImports").trans ?_) readableImports
    cases imports <;>
      simp [Json.members, encode, List.lookup_append, Json.sorted, Json.sortedItems_eq_map]

end Template

end TemplateMarkup
