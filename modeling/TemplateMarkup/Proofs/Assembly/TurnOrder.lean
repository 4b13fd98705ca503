import TemplateMarkup.Proofs.Assembly.Contents
import TemplateMarkup.Proofs.Canonical.Spacing
import TemplateMarkup.Proofs.Document.Inventory
import TemplateMarkup.Proofs.Document.Provenance
import TemplateMarkup.Proofs.Markup.TagOrder

/-!
# Turns in order

A turn covers the positions from its own place up to the place where the next turn starts.  What is
made in a turn stands at positions that the turn covers, and no position of a turn comes before one of
an earlier turn.  So whatever is made of the turns in their order is in the order of its positions.
-/

namespace TemplateMarkup

open CharacterClass

theorem RawBody.exists_of_trimmed_ne_empty {body : RawBody} (notEmpty : body.trimmed ≠ "") :
    ∃ character ∈ body.text.toList, isWhitespace character = false := by
  have noSpace := any_head?_trimEnds isWhitespace body.text.toList
  cases trimmed : trimEnds isWhitespace body.text.toList with
  | nil =>
      rw [RawBody.trimmed, WhitespacePolicy.apply_rawBody, trimmed] at notEmpty
      exact absurd rfl notEmpty
  | cons character rest =>
      rw [trimmed] at noSpace
      refine ⟨character, (isInfix_of_trimEnds isWhitespace _).subset ?_, noSpace⟩
      rw [trimmed]
      exact List.mem_cons_self

namespace Cursor

variable {cursor : Cursor}

theorem leadsTo_bodyStart (cursor : Cursor) :
    LeadsTo cursor.readOpeningTag.2 cursor.readElementStart.2 := by
  unfold readElementStart
  dsimp only
  split
  · exact .refl _
  · exact leadsTo_readRawBody _ _ _

/-- If anything remains of a raw body, whoever reads it comes forward. -/
theorem position_lt_of_body {body : RawBody} (isBody : cursor.readElementStart.1.2 = some body)
    (notEmpty : body.trimmed ≠ "") : body.position = cursor.readOpeningTag.2.position ∧
      cursor.readOpeningTag.2.position < cursor.readElementStart.2.position := by
  unfold readElementStart at isBody ⊢
  dsimp only at isBody ⊢
  split at isBody
  · cases isBody
  · next kind isKind =>
      cases isBody
      refine ⟨rfl, ?_⟩
      obtain ⟨character, member, notSpace⟩ := RawBody.exists_of_trimmed_ne_empty notEmpty
      obtain ⟨text, passes⟩ := leadsTo_bodyEnd cursor.readOpeningTag.2 kind
        cursor.readOpeningTag.1.tag.name.toList
      have isText : (String.ofList ((cursor.readOpeningTag.2.bodyEnd kind
          cursor.readOpeningTag.1.tag.name.toList).textSince
            cursor.readOpeningTag.2.offset)).toList = text := by
        rw [passes.textSince_eq, String.toList_ofList]
      have isThere : character ∈ text := isText ▸ member
      have overBody := passes.position_lt isThere (by rintro rfl; cases notSpace)
      exact lt_of_lt_of_le overBody (leadsTo_readClosingTag _).position_le

end Cursor

namespace NodeHead

def position : NodeHead → Position
  | .text _ position => position
  | .element tag => tag.position

/-- The positions of the attributes of an element. -/
def attributePositions : NodeHead → List Position
  | .text _ _ => []
  | .element tag => tag.attributePositions

/-- A node and its attributes come before another node. -/
def Precedes (first later : NodeHead) : Prop :=
  first.position < later.position ∧ ∀ position ∈ first.attributePositions, position < later.position

/-- The attributes of an element are in order. -/
def IsInOrder : NodeHead → Prop
  | .text _ _ => True
  | .element tag => tag.IsInOrder

end NodeHead

namespace Asset

def position : Asset → Position
  | .script added => added.position
  | .style added => added.position

end Asset

namespace Turn

/-- The place after all that the turn reads. -/
def stop (turn : Turn) : Cursor :=
  if turn.tagPlace.isOpeningTagAhead then turn.tagPlace.readElementStart.2
  else if turn.tagPlace.isClosingTagAhead then turn.tagPlace.readClosingTag.2
  else turn.tagPlace

/-- The position is one of those where the turn reads. -/
def Covers (turn : Turn) (position : Position) : Prop :=
  turn.place.position ≤ position ∧ position < turn.stop.position

variable {turn next : Turn} {opening : OpeningTag} {body : Option RawBody}

theorem place_of_next? (follows : turn.next? = some next) : next.place = turn.stop := by
  unfold next? at follows
  unfold stop
  split at follows
  · next isOpening =>
      obtain ⟨assembly, -, rfl⟩ := Option.map_eq_some_iff.mp follows
      rw [if_pos isOpening]
  · next notOpening =>
      split at follows
      · next isClosing =>
          obtain ⟨assembly, -, rfl⟩ := Option.map_eq_some_iff.mp follows
          rw [if_neg notOpening, if_pos isClosing]
      · cases follows

theorem leadsTo_stop (turn : Turn) : Cursor.LeadsTo turn.tagPlace turn.stop := by
  unfold stop
  split
  · exact Cursor.leadsTo_readElementStart _
  · split
    · exact Cursor.leadsTo_readClosingTag _
    · exact .refl _

/-- No turn starts before an earlier one has stopped. -/
theorem pairwise_onwards (turn : Turn) : turn.onwards.Pairwise fun earlier later =>
    earlier.stop.position ≤ later.place.position := by
  fun_induction onwards turn with
  | case1 turn isLast => exact List.pairwise_singleton _ _
  | case2 turn next follows ih =>
      refine List.pairwise_cons.mpr ⟨fun later isLater => ?_, ih⟩
      rw [← place_of_next? follows]
      exact (leadsTo_of_mem_onwards later isLater).position_le

/-- The positions of a turn come before those of a later one. -/
theorem pairwise_covers (turn : Turn) : turn.onwards.Pairwise fun earlier later =>
    ∀ first second, earlier.Covers first → later.Covers second → first < second :=
  turn.pairwise_onwards.imp fun stops _ _ isFirst isSecond =>
    lt_of_lt_of_le isFirst.2 (le_trans stops isSecond.1)

/-- What is made in turns is in order if each turn makes one thing, at a position that it covers. -/
theorem pairwise_filterMap {α : Type} {made? : Turn → Option α} (position : α → Position)
    (covers : ∀ turn made, made? turn = some made → turn.Covers (position made)) (turn : Turn) :
    ((turn.onwards.filterMap made?).map position).Pairwise (· < ·) := by
  rw [List.pairwise_map, List.pairwise_filterMap]
  refine turn.pairwise_covers.imp fun {earlier later} ordered first isFirst second isSecond => ?_
  exact ordered _ _ (covers earlier first isFirst) (covers later second isSecond)

theorem position_place_le_tagPlace (turn : Turn) : turn.place.position ≤ turn.tagPlace.position :=
  (Cursor.leadsTo_readText turn.place).position_le

/-- The text run is over before the tag starts, if any text is kept. -/
theorem position_lt_tagPlace (isKept : turn.keptText.isEmpty = false) :
    turn.place.position < turn.tagPlace.position := by
  obtain ⟨written, passes⟩ := Cursor.leadsTo_readText turn.place
  refine passes.position_lt_or.resolve_right ?_
  rintro ⟨-, rfl | ⟨-, isLineFeed⟩⟩
  · exact Bool.false_ne_true (isKept.symm.trans (isEmpty_keptText passes))
  · -- What follows on a run is a tag or nothing, so it is no line feed.
    rcases Cursor.isAtTag_readText turn.place with atEnd | isOpening | isClosing
    · rw [Cursor.current?, atEnd] at isLineFeed
      cases isLineFeed
    · obtain ⟨first, rest, ahead, -⟩ := Cursor.exists_ahead_of_isOpeningTagAhead isOpening
      rw [Cursor.current?, ahead] at isLineFeed
      cases isLineFeed
    · obtain ⟨rest, ahead⟩ := List.isPrefixOf_iff_prefix.mp isClosing
      rw [Cursor.current?, ← ahead] at isLineFeed
      cases isLineFeed

theorem covers_text (isKept : turn.keptText.isEmpty = false) : turn.Covers turn.place.position :=
  ⟨le_refl _, lt_of_lt_of_le (position_lt_tagPlace isKept) turn.leadsTo_stop.position_le⟩

theorem readElementStart_of_opening? (isTag : turn.opening? = some (opening, body)) :
    turn.tagPlace.isOpeningTagAhead ∧ turn.tagPlace.readElementStart.1 = (opening, body) := by
  unfold opening? at isTag
  split at isTag
  · next isAhead => exact ⟨isAhead, Option.some.inj isTag⟩
  · cases isTag

theorem position_tag (isTag : turn.opening? = some (opening, body)) :
    opening.tag.position = turn.tagPlace.position := by
  obtain ⟨-, rfl⟩ := readOpeningTag_of_opening? isTag
  rfl

/-- The opening tag is over when its body starts. -/
theorem covers_bodyStart (isTag : turn.opening? = some (opening, body)) {position : Position}
    (isBefore : position < turn.tagPlace.readOpeningTag.2.position)
    (isAfter : turn.place.position ≤ position) : turn.Covers position := by
  obtain ⟨isAhead, -⟩ := readOpeningTag_of_opening? isTag
  refine ⟨isAfter, lt_of_lt_of_le isBefore ?_⟩
  rw [stop, if_pos isAhead]
  exact (Cursor.leadsTo_bodyStart _).position_le

theorem position_tag_lt_bodyStart (isTag : turn.opening? = some (opening, body)) :
    opening.tag.position < turn.tagPlace.readOpeningTag.2.position := by
  obtain ⟨isAhead, -⟩ := readOpeningTag_of_opening? isTag
  rw [position_tag isTag]
  exact Cursor.position_lt_readOpeningTag isAhead

theorem covers_tag (isTag : turn.opening? = some (opening, body)) :
    turn.Covers opening.tag.position := by
  refine covers_bodyStart isTag (position_tag_lt_bodyStart isTag) ?_
  rw [position_tag isTag]
  exact turn.position_place_le_tagPlace

/-- The attributes of a tag are in order and come before its body. -/
theorem isInOrder_tag (isTag : turn.opening? = some (opening, body)) : opening.tag.IsInOrder ∧
    ∀ position ∈ opening.tag.attributePositions,
      position < turn.tagPlace.readOpeningTag.2.position := by
  obtain ⟨isAhead, rfl⟩ := readOpeningTag_of_opening? isTag
  exact Cursor.readOpeningTag_order isAhead

theorem covers_attribute (isTag : turn.opening? = some (opening, body)) :
    ∀ position ∈ opening.tag.attributePositions, turn.Covers position := by
  intro position member
  obtain ⟨isInOrder, ends⟩ := isInOrder_tag isTag
  refine covers_bodyStart isTag (ends position member) ?_
  exact le_trans (covers_tag isTag).1 (le_of_lt (isInOrder.afterTag position member))

/-- A body of which anything remains starts where its tag has ended. -/
theorem covers_body {read : RawBody} (isTag : turn.opening? = some (opening, some read))
    (notEmpty : read.trimmed ≠ "") : read.position = turn.tagPlace.readOpeningTag.2.position ∧
      turn.Covers read.position := by
  obtain ⟨isAhead, isStart⟩ := readElementStart_of_opening? isTag
  obtain ⟨starts, goesOn⟩ := Cursor.position_lt_of_body (congrArg Prod.snd isStart) notEmpty
  refine ⟨starts, ?_, ?_⟩
  · rw [starts]
    exact le_trans (covers_tag isTag).1 (le_of_lt (position_tag_lt_bodyStart isTag))
  · rw [starts, stop, if_pos isAhead]
    exact goesOn

/-- The nodes that an element brings. -/
theorem pairwise_nodesRead_opening (isTag : turn.opening? = some (opening, body)) :
    (opening.nodesRead body).Pairwise NodeHead.Precedes ∧
      ∀ node ∈ opening.nodesRead body, node.IsInOrder ∧ turn.tagPlace.position ≤ node.position ∧
        turn.Covers node.position ∧ ∀ position ∈ node.attributePositions, turn.Covers position := by
  have ofTag : (NodeHead.element opening.tag).IsInOrder ∧
      turn.tagPlace.position ≤ opening.tag.position ∧ turn.Covers opening.tag.position ∧
        ∀ position ∈ opening.tag.attributePositions, turn.Covers position :=
    ⟨(isInOrder_tag isTag).1, le_of_eq (position_tag isTag).symm, covers_tag isTag,
      covers_attribute isTag⟩
  have ofBody : ∀ node ∈ (RawBody.children body).map Node.head,
      node.IsInOrder ∧ node.position = turn.tagPlace.readOpeningTag.2.position ∧
        turn.Covers node.position ∧ node.attributePositions = [] := by
    intro node member
    unfold RawBody.children at member
    split at member
    · cases member
    · next read =>
        split at member
        · cases member
        · next isKept =>
            cases List.mem_singleton.mp member
            obtain ⟨starts, covers⟩ := covers_body isTag (by simpa using isKept)
            exact ⟨trivial, starts, covers, rfl⟩
  have single : ((RawBody.children body).map Node.head).Pairwise NodeHead.Precedes := by
    unfold RawBody.children
    split
    · exact .nil
    · split
      · exact .nil
      · exact List.pairwise_singleton _ _
  unfold OpeningTag.nodesRead
  split
  · refine ⟨List.pairwise_cons.mpr ⟨fun node member => ?_, single⟩,
      List.forall_mem_cons.mpr ⟨ofTag, fun node member => ?_⟩⟩
    · obtain ⟨-, starts, -⟩ := ofBody node member
      rw [NodeHead.Precedes, starts]
      exact ⟨position_tag_lt_bodyStart isTag, (isInOrder_tag isTag).2⟩
    · obtain ⟨isInOrder, starts, covers, noAttributes⟩ := ofBody node member
      refine ⟨isInOrder, ?_, covers, by simp [noAttributes]⟩
      rw [starts, ← position_tag isTag]
      exact le_of_lt (position_tag_lt_bodyStart isTag)
  · split
    · exact ⟨List.pairwise_singleton _ _, List.forall_mem_singleton.mpr ofTag⟩
    · exact ⟨.nil, nofun⟩

/-- The nodes of a turn are in order, and the turn covers them and their attributes. -/
theorem pairwise_nodesRead (turn : Turn) : turn.nodesRead.Pairwise NodeHead.Precedes ∧
    ∀ node ∈ turn.nodesRead, node.IsInOrder ∧ turn.Covers node.position ∧
      ∀ position ∈ node.attributePositions, turn.Covers position := by
  have afterText : ((turn.opening?.map fun start => start.1.nodesRead start.2).getD []).Pairwise
      NodeHead.Precedes ∧ ∀ node ∈ (turn.opening?.map fun start => start.1.nodesRead start.2).getD [],
        node.IsInOrder ∧ turn.tagPlace.position ≤ node.position ∧ turn.Covers node.position ∧
          ∀ position ∈ node.attributePositions, turn.Covers position := by
    cases isTag : turn.opening? with
    | none => exact ⟨.nil, nofun⟩
    | some start => exact pairwise_nodesRead_opening isTag
  unfold nodesRead text
  split
  · exact ⟨afterText.1, fun node member =>
      ⟨(afterText.2 node member).1, (afterText.2 node member).2.2⟩⟩
  · next isKept =>
      have isKept : turn.keptText.isEmpty = false := by simpa using isKept
      refine ⟨List.pairwise_cons.mpr ⟨fun node member => ?_, afterText.1⟩,
        List.forall_mem_cons.mpr ⟨⟨trivial, covers_text isKept, nofun⟩, fun node member =>
          ⟨(afterText.2 node member).1, (afterText.2 node member).2.2⟩⟩⟩
      exact ⟨lt_of_lt_of_le (position_lt_tagPlace isKept) (afterText.2 node member).2.1, nofun⟩

theorem covers_of_isTakenFrom {source : AssetSource} {position : Position}
    (isTag : turn.opening? = some (opening, body))
    (isTaken : Destination.IsTakenFrom opening.tag body source position)
    (isFilled : source.text ≠ "") : turn.Covers position := by
  cases isTaken with
  | tag isNamed => exact covers_tag isTag
  | body isBody =>
      subst isBody
      exact (covers_body isTag isFilled).2

theorem covers_of_collected? {collected : String × Asset}
    (collects : turn.collected? = some collected) :
    turn.Covers collected.2.position := by
  obtain ⟨destination, goes, isCollected⟩ := Option.bind_eq_some_iff.mp collects
  obtain ⟨opening, body, isTag, isSupplied⟩ := exists_isSupplied goes
  have isFilled := isFilled_of_destination? goes
  cases isSupplied with
  | script isTaken =>
      cases isCollected
      exact covers_of_isTakenFrom isTag isTaken isFilled.2.1
  | style isTaken =>
      cases isCollected
      exact covers_of_isTakenFrom isTag isTaken isFilled.2
  | _ => cases isCollected

theorem covers_of_imported? {imported : ComponentImport}
    (imports : turn.imported? = some imported) :
    turn.Covers imported.position := by
  obtain ⟨destination, goes, isImport⟩ := Option.bind_eq_some_iff.mp imports
  obtain ⟨opening, body, isTag, isSupplied⟩ := exists_isSupplied goes
  cases isSupplied with
  | imports isLink position =>
      cases isImport
      rw [position]
      exact covers_tag isTag
  | _ => cases isImport

theorem covers_of_declared? {declared : String × Tag} (declares : turn.declared? = some declared) :
    turn.Covers declared.2.position := by
  obtain ⟨opening, body, isTag, -, same⟩ := exists_of_declared? declares
  rw [same]
  exact covers_tag isTag

end Turn

end TemplateMarkup
