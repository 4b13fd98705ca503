import TemplateMarkup.Markup.Token
import TemplateMarkup.Proofs.Source.Passage

/-!
# Passages of the readers

Whatever a reader does, it passes over some text.  So the text ahead of the place that it comes to is
an end of the text that was ahead of it before.
-/

namespace TemplateMarkup

open CharacterClass

namespace Cursor

/-- Reading some text leads from one cursor to the other. -/
def LeadsTo (start stop : Cursor) : Prop :=
  ∃ text, Passes text start stop

namespace LeadsTo

variable {start middle stop : Cursor}

@[refl]
theorem refl (cursor : Cursor) : LeadsTo cursor cursor :=
  ⟨[], .done cursor⟩

@[trans]
theorem trans (first : LeadsTo start middle) (second : LeadsTo middle stop) :
    LeadsTo start stop := by
  obtain ⟨text, passes⟩ := first
  obtain ⟨more, passes'⟩ := second
  exact ⟨text ++ more, passes.trans passes'⟩

theorem exists_ahead_eq (leads : LeadsTo start stop) :
    ∃ text, start.ahead = text ++ stop.ahead := by
  obtain ⟨text, passes⟩ := leads
  exact ⟨text, passes.ahead_eq⟩

theorem remaining_le (leads : LeadsTo start stop) : stop.remaining ≤ start.remaining := by
  obtain ⟨text, ahead⟩ := leads.exists_ahead_eq
  simp [remaining, ahead]

end LeadsTo

variable (cursor : Cursor)

theorem leadsTo_advance : LeadsTo cursor cursor.advance := by
  cases ahead : cursor.ahead with
  | nil => rw [advance_of_ahead_nil ahead]
  | cons character rest => exact ⟨[character], .one ahead⟩

theorem leadsTo_advanceBy (count : Nat) : LeadsTo cursor (advanceBy count cursor) := by
  induction count generalizing cursor with
  | zero => exact .refl cursor
  | succ count ih =>
      rw [advanceBy]
      split
      · rfl
      · exact (leadsTo_advance cursor).trans (ih cursor.advance)

theorem leadsTo_seek (halts : Cursor → Bool) : LeadsTo cursor (cursor.seek halts) := by
  induction pending : cursor.ahead generalizing cursor with
  | nil => rw [seek_of_ahead_nil pending]
  | cons character rest ih =>
      cases halted : halts cursor with
      | true => rw [seek_of_halts halted]
      | false =>
          rw [seek_of_not_halts halted]
          exact (leadsTo_advance cursor).trans
            (ih cursor.advance (by rw [advance_of_ahead_cons pending]))

theorem leadsTo_skip (text : List Char) : LeadsTo cursor (cursor.skip text) := by
  rw [skip]
  split
  · exact leadsTo_advanceBy cursor text.length
  · rfl

theorem leadsTo_skipPast (character : Char) : LeadsTo cursor (cursor.skipPast character) :=
  (leadsTo_seek cursor _).trans (leadsTo_advance _)

theorem leadsTo_skipComment : LeadsTo cursor cursor.skipComment :=
  ((leadsTo_skip cursor _).trans (leadsTo_seek _ _)).trans (leadsTo_skip _ _)

theorem leadsTo_readText : LeadsTo cursor cursor.readText.2 := by
  show LeadsTo cursor cursor.readTextPieces.2
  fun_induction readTextPieces cursor with
  | case1 cursor pieceEnd piece isComment later ih =>
      exact (leadsTo_seek cursor _).trans ((leadsTo_skipComment pieceEnd).trans ih)
  | case2 cursor pieceEnd piece notComment => exact leadsTo_seek cursor _

theorem leadsTo_readAttributeValue (backtickQuotes : Bool) :
    LeadsTo cursor (cursor.readAttributeValue backtickQuotes).2 := by
  unfold readAttributeValue
  split
  · rfl
  · simp only
    split
    · exact (leadsTo_advance cursor).trans ((leadsTo_seek _ _).trans (leadsTo_advance _))
    · exact leadsTo_seek cursor _

theorem leadsTo_readAssignedValue (backtickQuotes : Bool) :
    LeadsTo cursor (cursor.readAssignedValue backtickQuotes).2 := by
  have afterName : LeadsTo cursor cursor.skipWhitespace := leadsTo_seek cursor _
  unfold readAssignedValue
  simp only
  split
  · exact (afterName.trans (leadsTo_advance _)).trans
      ((leadsTo_seek _ _).trans (leadsTo_readAttributeValue _ backtickQuotes))
  · exact afterName

theorem leadsTo_readAttribute : LeadsTo cursor cursor.readAttribute.2 := by
  unfold readAttribute
  split
  · exact (leadsTo_seek cursor _).trans (leadsTo_readAssignedValue _ false)
  · exact (leadsTo_advance cursor).trans
      ((leadsTo_seek _ _).trans (leadsTo_readAssignedValue _ true))

theorem leadsTo_readAttributes : LeadsTo cursor cursor.readAttributes.2 := by
  fun_induction readAttributes cursor with
  | case1 cursor place isOn first later ih =>
      exact (leadsTo_seek cursor _).trans ((leadsTo_readAttribute place).trans ih)
  | case2 cursor place notOn => exact leadsTo_seek cursor _

theorem leadsTo_skipTagEnd : LeadsTo cursor cursor.skipTagEnd := by
  rw [skipTagEnd]
  split
  · exact leadsTo_advanceBy cursor 2
  · exact leadsTo_skipPast cursor '>'

theorem leadsTo_readName : LeadsTo cursor cursor.readName.2 :=
  leadsTo_seek cursor _

theorem leadsTo_readOpeningTag : LeadsTo cursor cursor.readOpeningTag.2 :=
  (((leadsTo_skip cursor _).trans (leadsTo_readName _)).trans (leadsTo_readAttributes _)).trans
    (leadsTo_skipTagEnd _)

theorem leadsTo_readClosingTag : LeadsTo cursor cursor.readClosingTag.2 :=
  ((leadsTo_skip cursor _).trans (leadsTo_readName _)).trans (leadsTo_skipPast _ '>')

theorem leadsTo_seekBodyEnd (kind : RawKind) (name bound : List Char) (depth : Nat)
    (quote : Option Char) : LeadsTo cursor (seekBodyEnd kind name bound depth quote cursor) := by
  fun_induction seekBodyEnd kind name bound depth quote cursor with
  | case1 => rfl
  | case2 _ _ _ _ _ ih => exact (leadsTo_advance _).trans ih
  | case3 _ _ _ _ _ ih => exact (leadsTo_advance _).trans ih
  | case4 => rfl
  | case5 _ _ _ _ _ _ ih => exact (leadsTo_advance _).trans ih
  | case6 _ _ _ _ _ _ _ ih => exact (leadsTo_advance _).trans ih
  | case7 _ _ _ _ _ _ _ ih => exact (leadsTo_advance _).trans ih

theorem leadsTo_readRawBody (kind : RawKind) (name : List Char) :
    LeadsTo cursor (cursor.readRawBody kind name).2 :=
  (leadsTo_seekBodyEnd cursor _ _ _ _ _).trans (leadsTo_readClosingTag _)

theorem leadsTo_readElementStart : LeadsTo cursor cursor.readElementStart.2 := by
  have opening := leadsTo_readOpeningTag cursor
  unfold readElementStart
  simp only
  split
  · exact opening
  · exact opening.trans (leadsTo_readRawBody _ _ _)

theorem isNameCharacter_of_startsTagName {character : Char} (starts : startsTagName character) :
    isNameCharacter character := by
  simp only [isNameCharacter, isWhitespace, isLineBreak, isQuote, endsTag, Bool.and_eq_true,
    Bool.not_eq_true', Bool.or_eq_false_iff, beq_eq_false_iff_ne, bne_iff_ne]
  and_intros <;> (rintro rfl; exact absurd starts (by decide))

variable {cursor : Cursor}

/-- A name that starts is not empty. -/
theorem readName_ne_nil {first : Char} {rest : List Char} (ahead : cursor.ahead = first :: rest)
    (starts : startsTagName first) : cursor.readName.1 ≠ [] := by
  obtain ⟨text, passes⟩ := leadsTo_readName cursor
  have read : cursor.readName.1 = text := passes.textSince_eq
  rw [read]
  rintro rfl
  have stays : cursor.readName.2.ahead = first :: rest := passes.ahead_eq.symm.trans ahead
  rcases ahead_seek_eq_nil_or_halts cursor fun place => !place.isOn isNameCharacter with atEnd | halted
  · cases stays.symm.trans atEnd
  · have notOn : cursor.readName.2.isOn isNameCharacter = false := Bool.not_eq_true' _ |>.mp halted
    rw [isOn_of_ahead_cons stays, isNameCharacter_of_startsTagName starts] at notOn
    cases notOn

theorem exists_ahead_of_isOpeningTagAhead (isAhead : cursor.isOpeningTagAhead) :
    ∃ first rest, cursor.ahead = '<' :: first :: rest ∧ startsTagName first := by
  unfold isOpeningTagAhead isOn current? peek? at isAhead
  rcases ahead : cursor.ahead with _ | ⟨angle, _ | ⟨first, rest⟩⟩
  · simp [ahead] at isAhead
  · simp [ahead] at isAhead
  · obtain ⟨rfl, starts⟩ : angle = '<' ∧ startsTagName first := by simpa [ahead] using isAhead
    exact ⟨first, rest, rfl, starts⟩

theorem name_readOpeningTag_ne (isAhead : cursor.isOpeningTagAhead) :
    cursor.readOpeningTag.1.tag.name ≠ "" := by
  obtain ⟨first, rest, ahead, starts⟩ := exists_ahead_of_isOpeningTagAhead isAhead
  have afterAngle : (cursor.skip ['<']).ahead = first :: rest := by
    have angle : cursor.startsWith ['<'] := by simp [startsWith, ahead]
    have notAtEnd : cursor.isAtEnd = false := by simp [isAtEnd, ahead]
    simp [skip, angle, advanceBy, notAtEnd, advance_of_ahead_cons ahead]
  intro isEmpty
  have isNil := congrArg String.toList isEmpty
  rw [readOpeningTag, String.toList_ofList] at isNil
  exact readName_ne_nil afterAngle starts isNil

theorem name_ne_of_mem_tokens {opening : OpeningTag} {body : Option RawBody}
    (member : .opening opening body ∈ cursor.tokens) : opening.tag.name ≠ "" := by
  fun_induction tokens cursor with
  | case1 cursor run ihOpening ihClosing =>
      rcases List.mem_cons.mp member with same | member
      · cases same
      · split at member
        · next isAhead =>
            rcases List.mem_cons.mp member with same | later
            · cases same
              have isTag : run.2.readElementStart.1.1 = run.2.readOpeningTag.1 := by
                unfold readElementStart
                dsimp only
                split <;> rfl
              exact isTag ▸ name_readOpeningTag_ne isAhead
            · exact ihOpening isAhead later
        · split at member
          · next isAhead =>
              rcases List.mem_cons.mp member with same | later
              · cases same
              · exact ihClosing isAhead later
          · cases member

end Cursor

end TemplateMarkup
