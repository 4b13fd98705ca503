import TemplateMarkup.Document.Decode
import TemplateMarkup.Proofs.Document.Encoding
import TemplateMarkup.Proofs.Source.PositionText

/-!
# Templates survive being written as JSON

Every part of a template is read back from its encoded form, provided that its positions can be read
and that it does not nest too deep.  What has been read from any text meets both conditions, so
writing it and reading it again changes nothing.

The proof follows the encoding part by part.  The tree of nodes is the only recursion: a node is read
with a decoder for its children, which are two containers further down.
-/

namespace TemplateMarkup

open Decoder

/-- Every position in a list of them can be read. -/
def AreReadable (positions : List Position) : Prop :=
  ∀ position ∈ positions, position.IsReadable

instance (positions : List Position) : Decidable (AreReadable positions) :=
  inferInstanceAs (Decidable (∀ position ∈ positions, position.IsReadable))

@[simp]
theorem areReadable_nil : AreReadable [] := by simp [AreReadable]

@[simp]
theorem areReadable_cons {position : Position} {rest : List Position} :
    AreReadable (position :: rest) ↔ position.IsReadable ∧ AreReadable rest :=
  List.forall_mem_cons

@[simp]
theorem areReadable_append {first second : List Position} :
    AreReadable (first ++ second) ↔ AreReadable first ∧ AreReadable second :=
  List.forall_mem_append

@[simp]
theorem areReadable_map {α : Type} {place : α → Position} {parts : List α} :
    AreReadable (parts.map place) ↔ ∀ part ∈ parts, (place part).IsReadable := by
  simp [AreReadable]

@[simp]
theorem areReadable_flatMap {α : Type} {places : α → List Position} {parts : List α} :
    AreReadable (parts.flatMap places) ↔ ∀ part ∈ parts, AreReadable (places part) := by
  simp only [AreReadable, List.mem_flatMap]
  constructor
  · intro readable part member position isPlace
    exact readable position ⟨part, member, isPlace⟩
  · rintro readable position ⟨part, member, isPlace⟩
    exact readable part member position isPlace

namespace Position

theorem decode_string (depth : Nat) (text : String) :
    decode depth (.string (some text)) =
      match read? text with
      | some position => .ok position
      | none => .error .mismatched :=
  rfl

theorem undoes (depth : Nat) : Undoes decode encode IsReadable depth where
  reads readable _ := by
    rw [encode, Json.outline, decode_string, read?_render readable]
  gives {outline position} read := by
    obtain ⟨text, -, isPosition⟩ := exists_of_bind_eq_ok read
    split at isPosition
    · next found isFound =>
        cases isPosition
        exact ⟨isReadable_of_read? isFound, Nat.zero_le _⟩
    · cases isPosition

end Position

theorem StaticAttribute.undoes (depth : Nat) :
    Undoes decode encode (·.position.IsReadable) depth where
  reads {written} readable fits := by
    rcases written with ⟨name, value, position⟩
    obtain ⟨inner, rfl, inside⟩ := Json.exists_depth_of_object fits
    refine record_object (by decide) ?_ ?_
    · exact names_encode ⟨name, value, position⟩
    · refine Placed.seq_ok (Placed.seq_ok (Placed.map_ok ?_) ?_) ?_
      · exact required_ofMembers (string_undoes inner) inside (by simp) trivial
      · exact optional_ofMembers inside (by simp [List.lookup_append])
      · exact required_ofMembers (Position.undoes inner) inside (by simp [List.lookup_append])
          readable
  gives {outline written} read := by
    obtain ⟨inner, fields, rfl, built⟩ := exists_of_record_eq_ok read
    simp only [Placed.seq_eq_ok, Placed.map_eq_ok] at built
    obtain ⟨_, position, ⟨_, value, ⟨name, _, rfl⟩, _, rfl⟩, isPosition, rfl⟩ := built
    obtain ⟨readable, fits⟩ := gives_of_required (Position.undoes inner) isPosition
    refine ⟨readable, ?_⟩
    rw [encode, Json.nesting_object_le_iff]
    simp [Json.nesting, fits]

theorem Directive.undoes (depth : Nat) :
    Undoes decode encode (·.position.IsReadable) depth where
  reads {directive} readable fits := by
    rcases directive with ⟨name, modifier, value, referencesProps, isAsync, position⟩
    obtain ⟨inner, rfl, inside⟩ := Json.exists_depth_of_object fits
    refine record_object (by decide) ?_ ?_
    · exact names_encode ⟨name, modifier, value, referencesProps, isAsync, position⟩
    · refine Placed.seq_ok (Placed.seq_ok (Placed.seq_ok (Placed.seq_ok (Placed.seq_ok
        (Placed.map_ok ?_) ?_) ?_) ?_) ?_) ?_
      · exact required_ofMembers (string_undoes inner) inside (by simp) trivial
      · exact optional_ofMembers inside (by simp [List.lookup_append])
      · exact optional_ofMembers inside (by simp [List.lookup_append])
      · exact flag_ofMembers inside (by simp [List.lookup_append])
      · exact flag_ofMembers inside (by simp [List.lookup_append])
      · exact required_ofMembers (Position.undoes inner) inside (by simp [List.lookup_append])
          readable
  gives {outline directive} read := by
    obtain ⟨inner, fields, rfl, built⟩ := exists_of_record_eq_ok read
    simp only [Placed.seq_eq_ok, Placed.map_eq_ok] at built
    obtain ⟨_, position, ⟨_, isAsync, ⟨_, referencesProps, ⟨_, value, ⟨_, modifier,
      ⟨name, _, rfl⟩, _, rfl⟩, _, rfl⟩, _, rfl⟩, _, rfl⟩, isPosition, rfl⟩ := built
    obtain ⟨readable, fits⟩ := gives_of_required (Position.undoes inner) isPosition
    refine ⟨readable, ?_⟩
    rw [encode, Json.nesting_object_le_iff]
    simp [Json.nesting, fits]

/-- The decoder reads the children of an element at a depth. -/
def ReadsChildren (children : Decoder (List Node)) (depth : Nat) : Prop :=
  ∀ inner, depth = inner + 1 →
    Undoes children (fun nodes => .array (nodes.map Node.encode))
      (fun nodes => ∀ node ∈ nodes, AreReadable node.positions) inner

theorem Element.decodeWith_undoes {children : Decoder (List Node)} {depth : Nat}
    (undoes : ReadsChildren children depth) :
    Undoes (decodeWith children) encode (AreReadable ·.positions) depth where
  reads {element} readable fits := by
    rcases element with ⟨⟨name, attributes, directives, position⟩, nodes⟩
    rw [encode, Node.encodeAll_eq_map, Tag.encodeElement] at fits ⊢
    simp only [positions, Tag.positions, Node.positionsAll_eq_flatMap, areReadable_append,
      areReadable_map, areReadable_cons, areReadable_flatMap] at readable
    obtain ⟨⟨⟨readableAttributes, readableDirectives⟩, readablePosition, -⟩, readableNodes⟩ :=
      readable
    obtain ⟨inner, rfl, inside⟩ := Json.exists_depth_of_object fits
    refine record_object (by decide) ?_ ?_
    · exact Tag.names_encodeElement ⟨name, attributes, directives, position⟩ _
    · refine Placed.seq_ok (Placed.seq_ok (Placed.seq_ok (Placed.seq_ok
        (Placed.map_ok ?_) ?_) ?_) ?_) ?_
      · exact required_ofMembers (string_undoes inner) inside (by simp) trivial
      · exact list_ofMembers (list_undoes fun deeper _ => StaticAttribute.undoes deeper) inside
          (by simp [List.lookup_append]) readableAttributes
      · exact list_ofMembers (list_undoes fun deeper _ => Directive.undoes deeper) inside
          (by simp [List.lookup_append]) readableDirectives
      · exact list_ofMembers (undoes inner rfl) inside (by simp [List.lookup_append])
          readableNodes
      · exact required_ofMembers (Position.undoes inner) inside (by simp [List.lookup_append])
          readablePosition
  gives {outline element} read := by
    obtain ⟨inner, fields, rfl, built⟩ := exists_of_record_eq_ok read
    simp only [Placed.seq_eq_ok, Placed.map_eq_ok] at built
    obtain ⟨_, position, ⟨_, nodes, ⟨_, directives, ⟨_, attributes, ⟨name, _, rfl⟩, isAttributes,
      rfl⟩, isDirectives, rfl⟩, isNodes, rfl⟩, isPosition, rfl⟩ := built
    have ofAttributes := gives_of_list (list_undoes fun deeper _ => StaticAttribute.undoes deeper)
      (by simp) isAttributes
    have ofDirectives := gives_of_list (list_undoes fun deeper _ => Directive.undoes deeper)
      (by simp) isDirectives
    have ofNodes := gives_of_list (undoes inner rfl) (by simp) isNodes
    have ofPosition := gives_of_required (Position.undoes inner) isPosition
    constructor
    · simp only [positions, Tag.positions, Node.positionsAll_eq_flatMap, areReadable_append,
        areReadable_map, areReadable_cons, areReadable_flatMap]
      exact ⟨⟨⟨ofAttributes.1, ofDirectives.1⟩, ofPosition.1, areReadable_nil⟩, ofNodes.1⟩
    · rw [encode, Node.encodeAll_eq_map, Tag.encodeElement, Json.nesting_object_le_iff]
      simp only [Json.allMembers_append, Json.allMembers_cons, Json.allMembers_listMember]
      exact ⟨⟨⟨⟨Nat.zero_le _, ofAttributes.2⟩, ofDirectives.2⟩, ofNodes.2⟩, ofPosition.2,
        Json.allMembers_nil⟩

namespace Node

theorem decodeText_undoes (content : String) (position : Position) (depth : Nat)
    (readable : position.IsReadable) (fits : (text content position).encode.nesting ≤ depth) :
    decodeText depth (text content position).encode.outline = .ok (text content position) := by
  obtain ⟨inner, rfl, inside⟩ := Json.exists_depth_of_object fits
  refine record_object (by decide) (by simp) ?_
  refine Placed.seq_ok (Placed.map_ok ?_) ?_
  · exact required_ofMembers (string_undoes inner) inside (by simp) trivial
  · exact required_ofMembers (Position.undoes inner) inside (by simp) readable

/-- An element is never taken for a text, since it has no content of its own. -/
theorem decodeText_element (tag : Tag) (children : List Json) (depth : Nat) (node : Node) :
    decodeText depth (tag.encodeElement children).outline ≠ .ok node := by
  intro read
  obtain ⟨inner, rfl, built⟩ := exists_of_record_object_eq_ok read
  simp only [Placed.seq_eq_ok, Placed.map_eq_ok] at built
  obtain ⟨_, _, ⟨content, isContent, rfl⟩, -⟩ := built
  exact Fields.required_ne_ok_of_lookup_none (by simp [List.lookup_append]) isContent

theorem decodeWith_undoes {children : Decoder (List Node)} {depth : Nat}
    (undoes : ReadsChildren children depth) :
    Undoes (decodeWith children) encode (AreReadable ·.positions) depth where
  reads {node} readable fits := by
    have sound := Json.isSound_outline node.isNumberless_encode fits
    cases node with
    | text content position =>
        have isReadable : position.IsReadable := (areReadable_cons.mp readable).1
        simp only [decodeWith, sound, decodeText_undoes content position depth isReadable fits]
        rfl
    | element tag nodes =>
        have readable : AreReadable (Element.positions ⟨tag, nodes⟩) := readable
        have whole : Element.decodeWith children depth (element tag nodes).encode.outline =
          .ok ⟨tag, nodes⟩ := (Element.decodeWith_undoes undoes).reads readable fits
        have notText := decodeText_element tag (encodeAll nodes) depth
        -- A text is tried first, and fails.
        rw [decodeWith, if_pos sound]
        split
        · next node isText => exact absurd isText (notText node)
        · rw [whole]
          rfl
  gives {outline node} read := by
    unfold decodeWith at read
    split at read
    · split at read
      · next found isText =>
          cases read
          obtain ⟨inner, fields, rfl, built⟩ := exists_of_record_eq_ok isText
          simp only [Placed.seq_eq_ok, Placed.map_eq_ok] at built
          obtain ⟨_, position, ⟨content, _, rfl⟩, isPosition, rfl⟩ := built
          obtain ⟨readable, fits⟩ := gives_of_required (Position.undoes inner) isPosition
          refine ⟨areReadable_cons.mpr ⟨readable, areReadable_nil⟩, ?_⟩
          rw [encode, Json.nesting_object_le_iff]
          simp [Json.nesting, fits]
      · split at read
        · next whole isElement =>
            cases read
            exact (Element.decodeWith_undoes undoes).gives isElement
        · cases read
    · cases read

/-- The depth goes down by two from a node to its children. -/
theorem undoes (depth : Nat) : Undoes decode encode (AreReadable ·.positions) depth := by
  induction depth using Nat.twoStepInduction with
  | zero =>
      have children : ReadsChildren (fun _ => refuse) 0 := by
        intro inner isZero
        cases isZero
      exact ⟨(decodeWith_undoes children).reads, (decodeWith_undoes children).gives⟩
  | one =>
      have children : ReadsChildren (fun _ => refuse) 1 := by
        intro inner isOne
        cases isOne
        exact ⟨fun _ fits => absurd fits (by simp [Json.nesting]), fun read =>
          absurd read refuse_ne_ok⟩
      exact ⟨(decodeWith_undoes children).reads, (decodeWith_undoes children).gives⟩
  | more depth ih _ =>
      have children : ReadsChildren (fun _ => list (fun _ => decode depth) (depth + 1))
          (depth + 2) := by
        rintro inner ⟨⟩
        have each : ∀ inner, depth + 1 = inner + 1 →
            Undoes (fun _ => decode depth) encode (AreReadable ·.positions) inner := by
          rintro inner ⟨⟩
          exact ⟨ih.reads, ih.gives⟩
        exact ⟨(list_undoes each).reads, (list_undoes each).gives⟩
      exact ⟨(decodeWith_undoes children).reads, (decodeWith_undoes children).gives⟩

end Node

theorem Element.undoes (depth : Nat) :
    Undoes decode encode (AreReadable ·.positions) depth :=
  decodeWith_undoes fun _ _ => list_undoes fun deeper _ => Node.undoes deeper

/-- A set of names is written as a list and read back without losing its order. -/
theorem NameSet.undoes (depth : Nat) :
    Undoes (fun depth outline => NameSet.ofList <$> list string depth outline)
      (fun set => .array (set.names.map .string)) (fun _ => True) depth where
  reads {set} _ fits := by
    have names := (list_undoes fun deeper _ => string_undoes deeper).reads
      (fun _ _ => trivial) fits
    simp only [names]
    exact congrArg Except.ok set.ofList_names
  gives {outline set} read := by
    refine ⟨trivial, ?_⟩
    cases isList : list string depth outline with
    | error fault =>
        rw [isList] at read
        cases read
    | ok names =>
        have fits := ((list_undoes fun deeper _ => string_undoes deeper).gives isList).2
        obtain ⟨inner, rfl, -⟩ := Json.exists_depth_of_array fits
        rw [Json.nesting_array_le_iff]
        intro json member
        obtain ⟨name, -, rfl⟩ := List.mem_map.mp member
        exact Nat.zero_le _

theorem Component.undoes (depth : Nat) :
    Undoes decode encode (AreReadable ·.positions) depth where
  reads {component} readable fits := by
    rcases component with ⟨root, hasDefaultSlot, namedSlots, propTypes⟩
    obtain ⟨inner, rfl, inside⟩ := Json.exists_depth_of_object fits
    refine record_object (by decide) ?_ ?_
    · exact names_encode ⟨root, hasDefaultSlot, namedSlots, propTypes⟩
    · refine Placed.seq_ok (Placed.seq_ok (Placed.seq_ok (Placed.map_ok ?_) ?_) ?_) ?_
      · exact required_ofMembers (Element.undoes inner) inside (by simp) readable
      · exact flag_ofMembers inside (by simp [List.lookup_append])
      · refine field_ofMembers (NameSet.undoes inner) inside ?_ trivial
        rcases namedSlots with ⟨names, distinct⟩
        cases names with
        | nil => exact .inr ⟨by simp [List.lookup_append], rfl⟩
        | cons name rest => exact .inl (by simp [List.lookup_append])
      · exact optional_ofMembers inside (by simp [List.lookup_append])
  gives {outline component} read := by
    obtain ⟨inner, fields, rfl, built⟩ := exists_of_record_eq_ok read
    simp only [Placed.seq_eq_ok, Placed.map_eq_ok] at built
    obtain ⟨_, propTypes, ⟨_, namedSlots, ⟨_, hasDefaultSlot, ⟨root, isRoot, rfl⟩, _, rfl⟩,
      isSlots, rfl⟩, _, rfl⟩ := built
    obtain ⟨readable, fits⟩ := gives_of_required (Element.undoes inner) isRoot
    refine ⟨readable, ?_⟩
    have slots : namedSlots.names.map Json.string ≠ [] →
        (Json.array (namedSlots.names.map .string)).nesting ≤ inner := by
      rcases gives_of_field (NameSet.undoes inner) isSlots with found | rfl
      · exact fun _ => found.2
      · exact fun nonempty => absurd rfl nonempty
    rw [encode, Json.nesting_object_le_iff]
    simp only [Json.allMembers_append, Json.allMembers_cons, Json.allMembers_flagMember,
      Json.allMembers_listMember, Json.allMembers_optionalMember]
    refine ⟨⟨⟨fits, fun _ => Nat.zero_le _⟩, slots⟩, ?_⟩
    simp [Json.nesting]

theorem AssetSource.decode_ofMembers (source : AssetSource) (rest : List (String × Json))
    (depth : Nat) :
    decode depth (.ofMembers (source.encodeMember :: rest)) = .ok source := by
  cases source <;> rfl

theorem AssetSource.isSound_of_not_mem {source : AssetSource} {rest : List (String × Json)}
    {names : List String} {depth : Nat} (known : ∀ member ∈ rest, member.1 ∈ names) :
    ∀ member ∈ source.encodeMember :: rest, member.1 ∉ names →
      member.2.outline.isSound depth = true := by
  intro member isMember unknown
  rcases List.mem_cons.mp isMember with rfl | later
  · cases source <;> rfl
  · exact absurd (known member later) unknown

theorem Script.undoes (depth : Nat) : Undoes decode encode (·.position.IsReadable) depth where
  reads {script} readable fits := by
    rcases script with ⟨source, scope, position⟩
    obtain ⟨inner, rfl, inside⟩ := Json.exists_depth_of_object fits
    refine openRecord_object ?_ (AssetSource.isSound_of_not_mem (by simp)) ?_
    · exact distinct_encode ⟨source, scope, position⟩
    · refine Placed.seq_ok (Placed.seq_ok (Placed.map_ok ?_) ?_) ?_
      · exact source.decode_ofMembers _ inner
      · exact required_ofMembers (string_undoes inner) inside
          (by cases source <;> simp [AssetSource.encodeMember]) trivial
      · exact required_ofMembers (Position.undoes inner) inside
          (by cases source <;> simp [AssetSource.encodeMember]) readable
  gives {outline script} read := by
    obtain ⟨inner, fields, rfl, built⟩ := exists_of_openRecord_eq_ok read
    simp only [Placed.seq_eq_ok, Placed.map_eq_ok] at built
    obtain ⟨_, position, ⟨_, scope, ⟨source, _, rfl⟩, _, rfl⟩, isPosition, rfl⟩ := built
    obtain ⟨readable, fits⟩ := gives_of_required (Position.undoes inner) isPosition
    refine ⟨readable, ?_⟩
    rw [encode, Json.nesting_object_le_iff]
    cases source <;> simp [AssetSource.encodeMember, Json.nesting, fits]

theorem Style.undoes (depth : Nat) : Undoes decode encode (·.position.IsReadable) depth where
  reads {style} readable fits := by
    rcases style with ⟨source, position⟩
    obtain ⟨inner, rfl, inside⟩ := Json.exists_depth_of_object fits
    refine openRecord_object ?_ (AssetSource.isSound_of_not_mem (by simp)) ?_
    · exact distinct_encode ⟨source, position⟩
    · refine Placed.seq_ok (Placed.map_ok ?_) ?_
      · exact source.decode_ofMembers _ inner
      · exact required_ofMembers (Position.undoes inner) inside
          (by cases source <;> simp [AssetSource.encodeMember]) readable
  gives {outline style} read := by
    obtain ⟨inner, fields, rfl, built⟩ := exists_of_openRecord_eq_ok read
    simp only [Placed.seq_eq_ok, Placed.map_eq_ok] at built
    obtain ⟨_, position, ⟨source, _, rfl⟩, isPosition, rfl⟩ := built
    obtain ⟨readable, fits⟩ := gives_of_required (Position.undoes inner) isPosition
    refine ⟨readable, ?_⟩
    rw [encode, Json.nesting_object_le_iff]
    cases source <;> simp [AssetSource.encodeMember, Json.nesting, fits]

theorem Bucket.undoes (depth : Nat) : Undoes decode encode (AreReadable ·.positions) depth where
  reads {bucket} readable fits := by
    rcases bucket with ⟨scripts, styles⟩
    simp only [positions, areReadable_append, areReadable_map] at readable
    obtain ⟨inner, rfl, inside⟩ := Json.exists_depth_of_object fits
    refine record_object (by decide) ?_ ?_
    · exact names_encode ⟨scripts, styles⟩
    · refine Placed.seq_ok (Placed.map_ok ?_) ?_
      · exact list_ofMembers (list_undoes fun deeper _ => Script.undoes deeper) inside
          (by simp [List.lookup_append]) readable.1
      · exact list_ofMembers (list_undoes fun deeper _ => Style.undoes deeper) inside
          (by simp [List.lookup_append]) readable.2
  gives {outline bucket} read := by
    obtain ⟨inner, fields, rfl, built⟩ := exists_of_record_eq_ok read
    simp only [Placed.seq_eq_ok, Placed.map_eq_ok] at built
    obtain ⟨_, styles, ⟨scripts, isScripts, rfl⟩, isStyles, rfl⟩ := built
    have ofScripts := gives_of_list (list_undoes fun deeper _ => Script.undoes deeper)
      (by simp) isScripts
    have ofStyles := gives_of_list (list_undoes fun deeper _ => Style.undoes deeper)
      (by simp) isStyles
    constructor
    · simp only [positions, areReadable_append, areReadable_map]
      exact ⟨ofScripts.1, ofStyles.1⟩
    · rw [encode, Json.nesting_object_le_iff]
      simp only [Json.allMembers_append, Json.allMembers_listMember]
      exact ⟨ofScripts.2, ofStyles.2⟩

theorem ComponentImport.undoes (depth : Nat) :
    Undoes decode encode (·.position.IsReadable) depth where
  reads {imported} readable fits := by
    rcases imported with ⟨name, path, position⟩
    obtain ⟨inner, rfl, inside⟩ := Json.exists_depth_of_object fits
    refine record_object (by decide) ?_ ?_
    · exact names_encode ⟨name, path, position⟩
    · refine Placed.seq_ok (Placed.seq_ok (Placed.map_ok ?_) ?_) ?_
      · exact optional_ofMembers inside (by simp [List.lookup_append])
      · exact required_ofMembers (string_undoes inner) inside (by simp [List.lookup_append])
          trivial
      · exact required_ofMembers (Position.undoes inner) inside (by simp [List.lookup_append])
          readable
  gives {outline imported} read := by
    obtain ⟨inner, fields, rfl, built⟩ := exists_of_record_eq_ok read
    simp only [Placed.seq_eq_ok, Placed.map_eq_ok] at built
    obtain ⟨_, position, ⟨_, path, ⟨name, _, rfl⟩, _, rfl⟩, isPosition, rfl⟩ := built
    obtain ⟨readable, fits⟩ := gives_of_required (Position.undoes inner) isPosition
    refine ⟨readable, ?_⟩
    rw [encode, Json.nesting_object_le_iff]
    simp [Json.nesting, fits]

theorem Template.undoes (depth : Nat) : Undoes decode encode (AreReadable ·.positions) depth where
  reads {template} readable fits := by
    rcases template with ⟨sourcePath, main, inlineComponents, buckets, imports⟩
    simp only [positions, areReadable_append, areReadable_map, areReadable_flatMap] at readable
    obtain ⟨⟨⟨readableMain, readableComponents⟩, readableBuckets⟩, readableImports⟩ := readable
    obtain ⟨inner, rfl, inside⟩ := Json.exists_depth_of_object fits
    refine record_object (by decide) ?_ ?_
    · exact names_encode ⟨sourcePath, main, inlineComponents, buckets, imports⟩
    · refine Placed.seq_ok (Placed.seq_ok (Placed.seq_ok (Placed.seq_ok
        (Placed.map_ok ?_) ?_) ?_) ?_) ?_
      · exact optional_ofMembers inside (by simp [List.lookup_append])
      · exact required_ofMembers (Component.undoes inner) inside (by simp [List.lookup_append])
          readableMain
      · exact nameMap_ofMembers (fun deeper _ => Component.undoes deeper) inside
          (by simp [List.lookup_append]) readableComponents
      · exact nameMap_ofMembers (fun deeper _ => Bucket.undoes deeper) inside
          (by simp [List.lookup_append]) readableBuckets
      · exact list_ofMembers (list_undoes fun deeper _ => ComponentImport.undoes deeper) inside
          (by simp [List.lookup_append]) readableImports
  gives {outline template} read := by
    obtain ⟨inner, fields, rfl, built⟩ := exists_of_record_eq_ok read
    simp only [Placed.seq_eq_ok, Placed.map_eq_ok] at built
    obtain ⟨_, imports, ⟨_, buckets, ⟨_, components, ⟨_, main, ⟨sourcePath, _, rfl⟩, isMain,
      rfl⟩, isComponents, rfl⟩, isBuckets, rfl⟩, isImports, rfl⟩ := built
    have ofMain := gives_of_required (Component.undoes inner) isMain
    have ofComponents := gives_of_nameMap (fun deeper _ => Component.undoes deeper) isComponents
    have ofBuckets := gives_of_nameMap (fun deeper _ => Bucket.undoes deeper) isBuckets
    have ofImports := gives_of_list (list_undoes fun deeper _ => ComponentImport.undoes deeper)
      (by simp) isImports
    constructor
    · simp only [positions, areReadable_append, areReadable_map, areReadable_flatMap]
      exact ⟨⟨⟨ofMain.1, ofComponents.1⟩, ofBuckets.1⟩, ofImports.1⟩
    · rw [encode, Json.nesting_object_le_iff]
      simp only [Json.allMembers_append, Json.allMembers_cons, Json.allMembers_optionalMember,
        Json.allMembers_objectMember, Json.allMembers_listMember]
      refine ⟨⟨⟨⟨?_, ofMain.2, Json.allMembers_nil⟩, ofComponents.2⟩, ofBuckets.2⟩, ofImports.2⟩
      simp [Json.nesting]

/-- A text is read as what it was written for.  This is asked of values whose positions can be read
and that do not nest too deep, and of everything that has itself been read from some text. -/
structure RoundTrips {α : Type} (decode : Decoder α) (encode : α → Json)
    (positions : α → List Position) : Prop where
  written : ∀ value, AreReadable (positions value) → (encode value).nesting ≤ depthLimit →
    decode.run (encode value).renderPretty = .ok value
  again : ∀ text value, decode.run text = .ok value →
    decode.run (encode value).renderPretty = .ok value

theorem exists_of_run_eq_ok {α : Type} {decode : Decoder α} {text : String} {value : α}
    (read : decode.run text = .ok value) :
    ∃ outline, decode depthLimit outline = .ok value := by
  obtain ⟨found, isRead, closed⟩ := exists_of_bind_eq_ok read
  obtain rfl := eq_of_close_eq_ok closed
  exact ⟨(Outline.ofText text).1, isRead⟩

theorem roundTrips_of_undoes {α : Type} {decode : Decoder α} {encode : α → Json}
    {positions : α → List Position}
    (undoes : Undoes decode encode (AreReadable <| positions ·) depthLimit) :
    RoundTrips decode encode positions := by
  have written (value : α) (readable : AreReadable (positions value))
      (fits : (encode value).nesting ≤ depthLimit) :
      decode.run (encode value).renderPretty = .ok value := by
    simp only [run, Outline.ofText_renderPretty, undoes.reads readable fits]
    rfl
  constructor
  · exact written
  · intro text value read
    obtain ⟨outline, isRead⟩ := exists_of_run_eq_ok read
    obtain ⟨readable, fits⟩ := undoes.gives isRead
    exact written value readable fits

/-- A part with one position of its own. -/
theorem roundTrips_of_undoes_position {α : Type} {decode : Decoder α} {encode : α → Json}
    {position : α → Position}
    (undoes : Undoes decode encode (fun value => (position value).IsReadable) depthLimit) :
    RoundTrips decode encode fun value => [position value] := by
  refine roundTrips_of_undoes ⟨?_, ?_⟩
  · intro value readable fits
    exact undoes.reads (areReadable_cons.mp readable).1 fits
  · intro outline value read
    obtain ⟨readable, fits⟩ := undoes.gives read
    exact ⟨areReadable_cons.mpr ⟨readable, areReadable_nil⟩, fits⟩

/-- Templates and all their parts are read back from the texts written for them. -/
theorem documents_roundTrip :
    RoundTrips Template.decode Template.encode Template.positions ∧
    RoundTrips Node.decode Node.encode Node.positions ∧
    RoundTrips Component.decode Component.encode Component.positions ∧
    RoundTrips Element.decode Element.encode Element.positions ∧
    RoundTrips StaticAttribute.decode StaticAttribute.encode (fun written => [written.position]) ∧
    RoundTrips Directive.decode Directive.encode (fun directive => [directive.position]) ∧
    RoundTrips Bucket.decode Bucket.encode Bucket.positions ∧
    RoundTrips ComponentImport.decode ComponentImport.encode
      (fun imported => [imported.position]) := by
  refine ⟨?_, ?_, ?_, ?_, ?_, ?_, ?_, ?_⟩
  · exact roundTrips_of_undoes (Template.undoes _)
  · exact roundTrips_of_undoes (Node.undoes _)
  · exact roundTrips_of_undoes (Component.undoes _)
  · exact roundTrips_of_undoes (Element.undoes _)
  · exact roundTrips_of_undoes_position (StaticAttribute.undoes _)
  · exact roundTrips_of_undoes_position (Directive.undoes _)
  · exact roundTrips_of_undoes (Bucket.undoes _)
  · exact roundTrips_of_undoes_position (ComponentImport.undoes _)

/-- An element with an empty attribute value, a text after it, and a slot with a name. -/
def sampleTemplate : Template where
  sourcePath := some ""
  main :=
    { root :=
        ⟨.bare "" ⟨1, 1⟩,
          [.element ⟨"p", [⟨"title", some "", ⟨1, 4⟩⟩], [], ⟨1, 1⟩⟩ [.text "\"é\"" ⟨1, 13⟩],
            .text "\n" ⟨1, 20⟩]⟩
      hasDefaultSlot := true
      namedSlots := NameSet.ofList ["foot", "head"]
      propTypes := none }
  inlineComponents := .empty
  buckets := NameMap.ofList [("default", ⟨[⟨.path "a.js", "page", ⟨2, 1⟩⟩], []⟩)]
  imports := [⟨none, "./a.html", ⟨3, 1⟩⟩]

theorem sampleTemplate_roundTrips :
    AreReadable sampleTemplate.positions ∧ sampleTemplate.encode.nesting ≤ depthLimit ∧
      Template.decode.run sampleTemplate.encode.renderPretty = .ok sampleTemplate := by
  have readable : AreReadable sampleTemplate.positions := by decide
  have fits : sampleTemplate.encode.nesting ≤ depthLimit := by decide
  exact ⟨readable, fits, documents_roundTrip.1.written sampleTemplate readable fits⟩

end TemplateMarkup
