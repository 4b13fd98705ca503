import TemplateMarkup.Proofs.Markup.WrittenTags
import TemplateMarkup.Proofs.Source.Order

/-!
# Tags in order

The attributes of a tag come in their order, after the beginning of the tag and before its end.  The
two kinds of attributes are kept apart, but no two attributes of either kind are at one position.
-/

namespace TemplateMarkup

open CharacterClass

/-- The positions of all attributes of a tag. -/
def Tag.attributePositions (tag : Tag) : List Position :=
  tag.attributes.map (·.position) ++ tag.directives.map (·.position)

/-- The attributes of a tag are in order. -/
structure Tag.IsInOrder (tag : Tag) : Prop where
  attributes : (tag.attributes.map (·.position)).Pairwise (· < ·)
  directives : (tag.directives.map (·.position)).Pairwise (· < ·)
  distinct : tag.attributePositions.Nodup
  afterTag : ∀ position ∈ tag.attributePositions, tag.position < position

theorem Tag.isInOrder_bare (name : String) (position : Position) : (bare name position).IsInOrder :=
  ⟨.nil, .nil, List.nodup_nil, nofun⟩

section

variable {attributes : List Attribute} {position : Position} {name : String}

/-- A tag has the positions of all attributes that are read for it. -/
theorem Attribute.perm_positions (attributes : List Attribute) :
    ((attributes.filterMap plain?).map (·.position) ++
      (attributes.filterMap directive?).map (·.position)).Perm
        (attributes.map Attribute.position) := by
  induction attributes with
  | nil => exact .refl []
  | cons read rest ih =>
      cases read with
      | plain written => exact ih.cons written.position
      | directive written => exact List.perm_middle.trans (ih.cons written.position)

theorem Attribute.position_of_plain? {read : Attribute} {written : StaticAttribute}
    (isPlain : read.plain? = some written) : written.position = read.position := by
  cases read with
  | plain other => exact (congrArg (·.position) (Option.some.inj isPlain)).symm
  | directive other => cases isPlain

theorem Attribute.position_of_directive? {read : Attribute} {written : Directive}
    (isDirective : read.directive? = some written) : written.position = read.position := by
  cases read with
  | plain other => cases isDirective
  | directive other => exact (congrArg (·.position) (Option.some.inj isDirective)).symm

/-- A tag is in order if its attributes are read in order. -/
theorem Tag.isInOrder_of_pairwise (sorted : (attributes.map Attribute.position).Pairwise (· < ·))
    (after : ∀ read ∈ attributes, position < read.position) :
    Tag.IsInOrder ⟨name, attributes.filterMap Attribute.plain?,
      attributes.filterMap Attribute.directive?, position⟩ where
  attributes := by
    rw [List.pairwise_map, List.pairwise_filterMap]
    refine (List.pairwise_map.mp sorted).imp fun {first later} isLess => ?_
    intro written isWritten written' isWritten'
    rwa [Attribute.position_of_plain? isWritten, Attribute.position_of_plain? isWritten']
  directives := by
    rw [List.pairwise_map, List.pairwise_filterMap]
    refine (List.pairwise_map.mp sorted).imp fun {first later} isLess => ?_
    intro written isWritten written' isWritten'
    rwa [Attribute.position_of_directive? isWritten, Attribute.position_of_directive? isWritten']
  distinct := (Attribute.perm_positions attributes).nodup_iff.mpr (sorted.imp ne_of_lt)
  afterTag := by
    intro later member
    rw [attributePositions, (Attribute.perm_positions attributes).mem_iff] at member
    obtain ⟨read, isRead, rfl⟩ := List.mem_map.mp member
    exact after read isRead

end

namespace Cursor

variable {cursor : Cursor}

theorem position_lt_readAttribute (isOn : cursor.isOn isNameCharacter) :
    cursor.position < cursor.readAttribute.2.position :=
  (leadsTo_readAttribute cursor).position_lt (remaining_readAttribute_lt isOn) isOn (by decide)

/-- Attributes are read one after the other. -/
theorem readAttributes_order (cursor : Cursor) :
    (cursor.readAttributes.1.map Attribute.position).Pairwise (· < ·) ∧
      ∀ read ∈ cursor.readAttributes.1, cursor.position ≤ read.position ∧
        read.position < cursor.readAttributes.2.position := by
  fun_induction readAttributes cursor with
  | case1 cursor place isOn first later ih =>
      obtain ⟨sorted, within⟩ := ih
      have toPlace : cursor.position ≤ place.position := (leadsTo_seek cursor _).position_le
      have overFirst : place.position < first.2.position := position_lt_readAttribute isOn
      have isFirst : first.1.position = place.position := position_readAttribute place
      have toEnd : first.2.position ≤ later.2.position :=
        (leadsTo_readAttributes first.2).position_le
      constructor
      · rw [List.map_cons, List.pairwise_cons, isFirst]
        refine ⟨List.forall_mem_map.mpr fun read isLater => ?_, sorted⟩
        exact lt_of_lt_of_le overFirst (within read isLater).1
      · intro read member
        rcases List.mem_cons.mp member with rfl | isLater
        · rw [isFirst]
          exact ⟨toPlace, lt_of_lt_of_le overFirst toEnd⟩
        · have fromFirst := lt_of_lt_of_le overFirst (within read isLater).1
          exact ⟨le_trans toPlace (le_of_lt fromFirst), (within read isLater).2⟩
  | case2 cursor place notOn => exact ⟨.nil, fun _ member => absurd member List.not_mem_nil⟩

/-- The attributes of an opening tag are in order, and they come before its end. -/
theorem readOpeningTag_order (isAhead : cursor.isOpeningTagAhead) :
    cursor.readOpeningTag.1.tag.IsInOrder ∧
      ∀ position ∈ cursor.readOpeningTag.1.tag.attributePositions,
        position < cursor.readOpeningTag.2.position := by
  have overAngle : cursor.position < (cursor.skip ['<']).position :=
    (passes_openingAngle isAhead).position_lt List.mem_cons_self (by decide)
  have overName := (leadsTo_readName (cursor.skip ['<'])).position_le
  obtain ⟨sorted, within⟩ := readAttributes_order (cursor.skip ['<']).readName.2
  constructor
  · refine Tag.isInOrder_of_pairwise sorted fun read isRead => ?_
    exact lt_of_lt_of_le overAngle (le_trans overName (within read isRead).1)
  · intro position member
    obtain ⟨read, isRead, rfl⟩ := List.mem_map.mp ((Attribute.perm_positions _).mem_iff.mp member)
    exact lt_of_lt_of_le (within read isRead).2 (leadsTo_skipTagEnd _).position_le

theorem position_lt_readOpeningTag (isAhead : cursor.isOpeningTagAhead) :
    cursor.position < cursor.readOpeningTag.2.position :=
  (leadsTo_readOpeningTag cursor).position_lt (remaining_readOpeningTag_lt isAhead)
    ((Bool.and_eq_true _ _).mp isAhead).1 (by decide)

end Cursor

end TemplateMarkup
