import TemplateMarkup.Proofs.Assembly.Fragment
import TemplateMarkup.Proofs.Markup.Course

/-!
# A text at another place

Whole tags say the same wherever they stand, but for their spans, and their positions are moved together
with the position of the first of them.  A cursor stands where the text ends that it has passed, so two
cursors over the same text stand at positions that are moved alike, as long as the next characters are the
same or the text ends with a `>`.
-/

namespace TemplateMarkup

open CharacterClass

/-- All positions are moved and all spans forgotten. -/
def Rewording.placing (place : Position → Position) : Rewording where
  text := id
  place := place
  span _ := ⟨0, 0⟩
  injective := Function.injective_id
  keeps_line := @unplaced.keeps_line
  apply_policy := unplaced.apply_policy
  isRelativePath_text := unplaced.isRelativePath_text

theorem Rewording.keeps_placing_id : (Rewording.placing id).Keeps :=
  ⟨fun _ => rfl, fun _ => rfl⟩

namespace Position

/-- What follows a `>` makes no difference to the position after it. -/
theorem past_append_angle (position : Position) (following following' : Option Char)
    (text : List Char) :
    position.past following' (text ++ ['>']) = position.past following (text ++ ['>']) := by
  induction text generalizing position with
  | nil => rw [List.nil_append, past_cons, past_cons]; rfl
  | cons character rest ih =>
      have next (following : Option Char) :
          (rest ++ ['>']).head?.or following = (rest ++ ['>']).head? := by
        cases rest <;> rfl
      rw [List.cons_append, past_cons, past_cons, next, next, ih]

end Position

namespace Cursor

variable {first : Position} {text : List Char} {cursor other stop stop' : Cursor}

/-- The second cursor stands where the first one would if the first character of its source stood at the
given position. -/
structure IsMovedTo (first : Position) (cursor other : Cursor) : Prop where
  position : other.position = first.movedTo cursor.position
  counted : cursor.position.IsCounted

namespace IsMovedTo

theorem passes (moved : IsMovedTo first cursor other) (passes : Passes text cursor stop)
    (passes' : Passes text other stop') (sameNext : stop'.current? = stop.current?) :
    IsMovedTo first stop stop' where
  position := by
    rw [passes.position_eq, passes'.position_eq, sameNext, moved.position,
      Position.movedTo_past first moved.counted]
  counted := passes.position_eq ▸ moved.counted.past _ _

theorem passes_angle (moved : IsMovedTo first cursor other)
    (passes : Passes (text ++ ['>']) cursor stop) (passes' : Passes (text ++ ['>']) other stop') :
    IsMovedTo first stop stop' where
  position := by
    rw [passes.position_eq, passes'.position_eq, moved.position,
      Position.movedTo_past first moved.counted, Position.past_append_angle _ stop.current?]
  counted := passes.position_eq ▸ moved.counted.past _ _

end IsMovedTo

section Shared

variable {rest rest' after after' : List Char}

/-- What is passed over between two shared places is shared. -/
theorem Shares.exists_passes (shares : Shares rest rest' cursor other)
    (ends : Shares rest rest' stop stop') (leads : LeadsTo cursor stop)
    (leads' : LeadsTo other stop') : ∃ text, Passes text cursor stop ∧ Passes text other stop' := by
  obtain ⟨whole, ahead, ahead'⟩ := shares
  obtain ⟨left, aheadStop, aheadStop'⟩ := ends
  obtain ⟨text, passes⟩ := leads
  obtain ⟨text', passes'⟩ := leads'
  have isWhole : text ++ left = whole := by
    refine (List.append_left_inj rest).mp ?_
    rw [List.append_assoc, ← aheadStop, ← passes.ahead_eq, ahead]
  have isWhole' : text' ++ left = whole := by
    refine (List.append_left_inj rest').mp ?_
    rw [List.append_assoc, ← aheadStop', ← passes'.ahead_eq, ahead']
  have same : text' = text := List.append_cancel_right (isWhole'.trans isWhole.symm)
  exact ⟨text, passes, same ▸ passes'⟩

theorem Shares.current?_eq (shares : Shares rest rest' cursor other)
    (inside : rest.length < cursor.remaining) : other.current? = cursor.current? := by
  obtain ⟨text, ahead, ahead'⟩ := shares
  cases text with
  | nil =>
      rw [remaining, ahead, List.nil_append] at inside
      exact absurd inside (Nat.lt_irrefl _)
  | cons character text =>
      rw [current?, current?, ahead, ahead']
      rfl

theorem Shares.current?_eq_of_angle (shares : Shares ('>' :: after) ('>' :: after') cursor other) :
    other.current? = cursor.current? := by
  obtain ⟨text, ahead, ahead'⟩ := shares
  rw [current?, current?, ahead, ahead']
  cases text <;> rfl

namespace IsMovedTo

theorem shares (moved : IsMovedTo first cursor other) (shares : Shares rest rest' cursor other)
    (ends : Shares rest rest' stop stop') (leads : LeadsTo cursor stop) (leads' : LeadsTo other stop')
    (sameNext : stop'.current? = stop.current?) : IsMovedTo first stop stop' := by
  obtain ⟨text, passes, passes'⟩ := shares.exists_passes ends leads leads'
  exact moved.passes passes passes' sameNext

/-- Between two places before a `>` that is shared. -/
theorem fork (moved : IsMovedTo first cursor other)
    (shares : Shares ('>' :: after) ('>' :: after') cursor other)
    (ends : Shares ('>' :: after) ('>' :: after') stop stop') (leads : LeadsTo cursor stop)
    (leads' : LeadsTo other stop') : IsMovedTo first stop stop' :=
  moved.shares shares ends leads leads' ends.current?_eq_of_angle

/-- Up to a place behind a `>`. -/
theorem angle (moved : IsMovedTo first cursor other) (shares : Shares rest rest' cursor other)
    (ends : Shares rest rest' stop stop') (leads : LeadsTo cursor stop) (leads' : LeadsTo other stop')
    (behindAngle : ∃ read, cursor.ahead = read ++ '>' :: stop.ahead) :
    IsMovedTo first stop stop' := by
  obtain ⟨text, passes, passes'⟩ := shares.exists_passes ends leads leads'
  obtain ⟨read, ahead⟩ := behindAngle
  have isText : text = read ++ ['>'] := by
    refine (List.append_left_inj stop.ahead).mp ?_
    rw [← passes.ahead_eq, ahead, List.append_assoc, List.singleton_append]
  subst isText
  exact moved.passes_angle passes passes'

end IsMovedTo

end Shared

end Cursor

section Placing

variable {place : Position → Position}

theorem StaticAttribute.reword_placing {written written' : StaticAttribute}
    (same : written'.reword .unplaced = written.reword .unplaced)
    (moved : written'.position = place written.position) :
    written'.reword (.placing id) = written.reword (.placing place) := by
  show { written'.reword .unplaced with position := written'.position } =
    { written.reword .unplaced with position := place written.position }
  rw [same, moved]

theorem Directive.reword_placing {directive directive' : Directive}
    (same : directive'.reword .unplaced = directive.reword .unplaced)
    (moved : directive'.position = place directive.position) :
    directive'.reword (.placing id) = directive.reword (.placing place) := by
  show { directive'.reword .unplaced with position := directive'.position } =
    { directive.reword .unplaced with position := place directive.position }
  rw [same, moved]

def Attribute.position : Attribute → Position
  | .plain written => written.position
  | .directive written => written.position

theorem Attribute.reword_placing {written written' : Attribute}
    (same : written'.reword .unplaced = written.reword .unplaced)
    (moved : written'.position = place written.position) :
    written'.reword (.placing id) = written.reword (.placing place) := by
  cases written with
  | plain written =>
      cases written' with
      | plain written' =>
          exact congrArg plain (StaticAttribute.reword_placing (plain.inj same) moved)
      | directive => cases same
  | directive written =>
      cases written' with
      | plain => cases same
      | directive written' =>
          exact congrArg directive (Directive.reword_placing (directive.inj same) moved)

theorem TextRun.reword_placing {run run' : TextRun}
    (same : run'.reword .unplaced = run.reword .unplaced)
    (moved : run'.position = place run.position) :
    run'.reword (.placing id) = run.reword (.placing place) := by
  show { run'.reword .unplaced with position := run'.position } =
    { run.reword .unplaced with position := place run.position }
  rw [same, moved]

theorem RawBody.reword_placing {body body' : RawBody}
    (same : body'.reword .unplaced = body.reword .unplaced)
    (moved : body'.position = place body.position) :
    body'.reword (.placing id) = body.reword (.placing place) := by
  show { body'.reword .unplaced with position := body'.position } =
    { body.reword .unplaced with position := place body.position }
  rw [same, moved]

theorem ClosingTag.reword_placing {closing closing' : ClosingTag}
    (same : closing'.reword .unplaced = closing.reword .unplaced)
    (moved : closing'.position = place closing.position) :
    closing'.reword (.placing id) = closing.reword (.placing place) := by
  show { closing'.reword .unplaced with position := closing'.position } =
    { closing.reword .unplaced with position := place closing.position }
  rw [same, moved]

end Placing

namespace Cursor

variable {first : Position} {cursor other : Cursor}

theorem position_readAttribute (cursor : Cursor) :
    cursor.readAttribute.1.position = cursor.position := by
  unfold readAttribute
  cases cursor.sigil? <;> rfl

/-- Attributes before a `>` that is shared are read at positions that are moved alike. -/
theorem readAttributes_of_moved {after after' : List Char}
    (related : Fork.Relates ⟨'>' :: after, '>' :: after', .angle _ _⟩ cursor other)
    (within : Fork.Precedes ⟨'>' :: after, '>' :: after', .angle _ _⟩ cursor.readAttributes.2)
    (moved : IsMovedTo first cursor other) :
    other.readAttributes.1.map (·.reword (.placing id)) =
      cursor.readAttributes.1.map (·.reword (.placing first.movedTo)) := by
  induction size : cursor.remaining using Nat.strongRecOn generalizing cursor other with
  | ind count ih =>
      cases isOn : cursor.skipToAttribute.isOn isNameCharacter with
      | false =>
          rw [readAttributes_of_end isOn] at within
          have place := Fork.relates_seek Fork.alike_isAttributeOrTagEnd related within
          have isOnToo : other.skipToAttribute.isOn isNameCharacter = false :=
            (Fork.isOn_eq (by decide) place).trans isOn
          rw [readAttributes_of_end isOn, readAttributes_of_end isOnToo]
          rfl
      | true =>
          rw [readAttributes_of_attribute isOn] at within
          have afterFirst := within.of_le (remaining_readAttributes_le _)
          have place : Fork.Relates _ cursor.skipToAttribute other.skipToAttribute :=
            Fork.relates_seek Fork.alike_isAttributeOrTagEnd related
              (afterFirst.of_le (Nat.le_of_lt (remaining_readAttribute_lt isOn)))
          have isOnToo := (Fork.isOn_eq (by decide) place).trans isOn
          have shorter : cursor.skipToAttribute.readAttribute.2.remaining < count :=
            size ▸ Nat.lt_of_lt_of_le (remaining_readAttribute_lt isOn) (remaining_seek_le _ _)
          obtain ⟨written, next⟩ := Fork.readAttribute_eq place isOn afterFirst
          have movedPlace : IsMovedTo first cursor.skipToAttribute other.skipToAttribute :=
            moved.fork related place (leadsTo_seek _ _) (leadsTo_seek _ _)
          have movedNext := movedPlace.fork place next (leadsTo_readAttribute _)
            (leadsTo_readAttribute _)
          have writtenThere := Attribute.reword_placing written <| by
            rw [position_readAttribute, position_readAttribute, movedPlace.position]
          rw [readAttributes_of_attribute isOn, readAttributes_of_attribute isOnToo,
            List.map_cons, List.map_cons, writtenThere, ih _ shorter next within movedNext rfl]

variable {rest rest' : List Char}

/-- A whole opening tag. -/
theorem readOpeningTag_of_moved (whole : cursor.OpeningTagIsWhole)
    (shares : Shares rest rest' cursor other)
    (within : rest.length ≤ cursor.readOpeningTag.2.remaining) (moved : IsMovedTo first cursor other) :
    other.readOpeningTag.1.reword (.placing id) =
        cursor.readOpeningTag.1.reword (.placing first.movedTo) ∧
      IsMovedTo first cursor.readOpeningTag.2 other.readOpeningTag.2 := by
  obtain ⟨-, same, -, ends⟩ := readOpeningTag_of_shares whole shares within
  obtain ⟨slash, -, tagEnd⟩ := ahead_openingTagEnd whole
  obtain ⟨text, ahead⟩ := (leadsTo_openingTagEnd cursor).exists_ahead_eq
  rw [tagEnd, ← List.append_assoc] at ahead
  refine ⟨?_, moved.angle shares ends (leadsTo_readOpeningTag _) (leadsTo_readOpeningTag _) ⟨_, ahead⟩⟩
  obtain ⟨left, after, related⟩ := shares.exists_fork ⟨_, ahead⟩ within
  rw [after] at tagEnd
  have atEnd : Fork.Precedes ⟨'>' :: (left ++ rest), '>' :: (left ++ rest'), .angle _ _⟩
      cursor.openingTagEnd := by
    simp only [Fork.Precedes, remaining, tagEnd, List.length_append, List.length_cons]
    omega
  have afterName := atEnd.of_le (remaining_readAttributes_le _)
  have opened : Fork.Relates _ (cursor.skip ['<']) (other.skip ['<']) :=
    Fork.relates_skip (by decide) related (afterName.of_le (remaining_skipWhile_le _ _))
  obtain ⟨name, -, atAttributes⟩ := Fork.readName_eq opened afterName
  have attributes := readAttributes_of_moved atAttributes atEnd <|
    moved.fork related atAttributes ((leadsTo_skip _ _).trans (leadsTo_readName _))
      ((leadsTo_skip _ _).trans (leadsTo_readName _))
  have isSelfClosing : other.readOpeningTag.1.isSelfClosing = cursor.readOpeningTag.1.isSelfClosing :=
    congrArg (·.isSelfClosing) same
  unfold readOpeningTag at isSelfClosing ⊢
  simp only at isSelfClosing
  simp only [OpeningTag.reword, Tag.reword, isSelfClosing, name, moved.position,
    ← Attribute.filterMap_plain?_reword, ← Attribute.filterMap_directive?_reword, attributes]
  rfl

theorem readClosingTag_of_moved (whole : cursor.ClosingTagIsWhole)
    (shares : Shares rest rest' cursor other)
    (within : rest.length ≤ cursor.readClosingTag.2.remaining) (moved : IsMovedTo first cursor other) :
    other.readClosingTag.1.reword (.placing id) =
        cursor.readClosingTag.1.reword (.placing first.movedTo) ∧
      IsMovedTo first cursor.readClosingTag.2 other.readClosingTag.2 := by
  obtain ⟨-, same, ends⟩ := readClosingTag_of_shares whole shares within
  exact ⟨ClosingTag.reword_placing same moved.position,
    moved.angle shares ends (leadsTo_readClosingTag _) (leadsTo_readClosingTag _)
      (exists_angle_of_closingTag whole)⟩

theorem fst_readElementStart (cursor : Cursor) :
    cursor.readElementStart.1 =
      (cursor.readOpeningTag.1, cursor.readOpeningTag.1.rawKind?.map fun kind =>
        (cursor.readOpeningTag.2.readRawBody kind cursor.readOpeningTag.1.tag.name.toList).1) := by
  unfold readElementStart
  simp only
  cases cursor.readOpeningTag.1.rawKind? <;> rfl

theorem remaining_readElementStart_le (cursor : Cursor) :
    cursor.readElementStart.2.remaining ≤ cursor.readOpeningTag.2.remaining := by
  unfold readElementStart
  simp only
  cases cursor.readOpeningTag.1.rawKind? with
  | none => exact Nat.le_refl _
  | some kind => exact remaining_readRawBody_le _ _ _

/-- A whole opening tag together with its raw body. -/
theorem readElementStart_of_moved (whole : cursor.ElementStartIsWhole)
    (shares : Shares rest rest' cursor other)
    (within : rest.length ≤ cursor.readElementStart.2.remaining)
    (moved : IsMovedTo first cursor other) :
    other.readElementStart.1.1.reword (.placing id) =
        cursor.readElementStart.1.1.reword (.placing first.movedTo) ∧
      other.readElementStart.1.2.map (·.reword (.placing id)) =
        cursor.readElementStart.1.2.map (·.reword (.placing first.movedTo)) ∧
      IsMovedTo first cursor.readElementStart.2 other.readElementStart.2 := by
  obtain ⟨-, sameOpening, sameBody, ends⟩ := readElementStart_of_shares whole shares within
  have after := moved.angle shares ends (leadsTo_readElementStart _) (leadsTo_readElementStart _)
    (exists_angle_of_elementStart whole)
  obtain ⟨opening, atBody⟩ := readOpeningTag_of_moved whole.1 shares
    (Nat.le_trans within (remaining_readElementStart_le cursor)) moved
  simp only [fst_readElementStart] at sameOpening sameBody ⊢
  refine ⟨opening, ?_, after⟩
  obtain ⟨-, sameKind⟩ := name_rawKind?_eq sameOpening
  rw [sameKind] at sameBody ⊢
  cases isKind : cursor.readOpeningTag.1.rawKind? with
  | none => rfl
  | some kind =>
      simp only [isKind, Option.map_some, Option.some.injEq] at sameBody ⊢
      exact RawBody.reword_placing sameBody atBody.position

/-- The text run before a whole tag, and the place of the tag. -/
theorem readText_of_moved {after : List Char} (shares : Shares rest rest' cursor other)
    (leads : ∃ read, cursor.readText.2.ahead = read ++ '>' :: after)
    (within : rest.length ≤ after.length) (moved : IsMovedTo first cursor other) :
    other.readText.1.reword (.placing id) = cursor.readText.1.reword (.placing first.movedTo) ∧
      IsMovedTo first cursor.readText.2 other.readText.2 := by
  obtain ⟨same, -, -, ends⟩ := readText_of_shares shares leads within
  refine ⟨TextRun.reword_placing same moved.position,
    moved.shares shares ends (leadsTo_readText _) (leadsTo_readText _) (ends.current?_eq ?_)⟩
  obtain ⟨read, ahead⟩ := leads
  rw [remaining, ahead, List.length_append, List.length_cons]
  omega

/-- Whole tags can be read wherever they stand, with all their positions moved. -/
theorem Runs.exists_moved {tokens : List Token} {start start' stop : Cursor}
    (runs : Runs tokens start stop) (shares : Shares stop.ahead rest' start start')
    (moved : IsMovedTo first start start') :
    ∃ tokens' stop', Runs tokens' start' stop' ∧
      tokens'.map (·.reword (.placing id)) = tokens.map (·.reword (.placing first.movedTo)) ∧
      stop'.ahead = rest' := by
  induction runs generalizing start' with
  | done start =>
      obtain ⟨read, ahead, ahead'⟩ := shares
      have nothing : read = [] := List.append_left_eq_self.mp ahead.symm
      exact ⟨[], start', .done _, rfl, by rw [ahead', nothing, List.nil_append]⟩
  | @opening tokens start stop isAhead whole later ih =>
      have within := later.leadsTo.remaining_le
      have toAngle := exists_angle_of_elementStart whole
      obtain ⟨-, sameOpening, -, atTag⟩ := readText_of_shares shares toAngle within
      obtain ⟨run, movedTag⟩ := readText_of_moved shares toAngle within moved
      obtain ⟨whole', -, -, after⟩ := readElementStart_of_shares whole atTag within
      obtain ⟨opening, body, movedAfter⟩ := readElementStart_of_moved whole atTag within movedTag
      obtain ⟨tokens', stop', runs', same, aheadStop⟩ := ih after movedAfter
      refine ⟨_, stop', .opening (sameOpening.trans isAhead) whole' runs', ?_, aheadStop⟩
      rw [List.map_cons, List.map_cons, List.map_cons, List.map_cons, same]
      exact congrArg₂ List.cons (congrArg Token.text run)
        (congrArg (· :: _) (congrArg₂ Token.opening opening body))
  | @closing tokens start stop isAhead whole later ih =>
      have within := later.leadsTo.remaining_le
      have toAngle := exists_angle_of_closingTag whole
      obtain ⟨-, -, sameClosing, atTag⟩ := readText_of_shares shares toAngle within
      obtain ⟨run, movedTag⟩ := readText_of_moved shares toAngle within moved
      obtain ⟨whole', -, after⟩ := readClosingTag_of_shares whole atTag within
      obtain ⟨closing, movedAfter⟩ := readClosingTag_of_moved whole atTag within movedTag
      obtain ⟨tokens', stop', runs', same, aheadStop⟩ := ih after movedAfter
      refine ⟨_, stop', .closing (sameClosing.trans isAhead) whole' runs', ?_, aheadStop⟩
      rw [List.map_cons, List.map_cons, List.map_cons, List.map_cons, same]
      exact congrArg₂ List.cons (congrArg Token.text run)
        (congrArg (· :: _) (congrArg Token.closing closing))

end Cursor

end TemplateMarkup
