import TemplateMarkup.Proofs.Markup.Passage
import TemplateMarkup.Proofs.Source.Placement

/-!
# Movements of a cursor

Everything that a cursor can be told to do is a number of steps over single characters.  So however it
has been moved, it stands between two characters of the source, and its offset and its position are
those of the text before it.  What is cut out of the source on the way lies between two such places.
-/

namespace TemplateMarkup

open CharacterClass

/-- What a cursor can be told to do. -/
inductive Movement where
  | advance
  | advanceBy (count : Nat)
  | consume (text : List Char)
  | skipWhitespace
  | consumeWhile (belongs : Char → Bool)
  | skipComment
  | readText
  | readName
  | readOpeningTag
  | readClosingTag
  | readAttributes
  | readQuotedValue (quote : Char)
  | readUnquotedValue
  | readRawBody (kind : RawKind) (name : List Char)

namespace Movement

/-- Where a movement leads. -/
def apply : Movement → Cursor → Cursor
  | advance, cursor => cursor.advance
  | advanceBy count, cursor => Cursor.advanceBy count cursor
  | consume text, cursor => cursor.skip text
  | skipWhitespace, cursor => cursor.skipWhitespace
  | consumeWhile belongs, cursor => cursor.skipWhile belongs
  | skipComment, cursor => cursor.skipComment
  | readText, cursor => cursor.readText.2
  | readName, cursor => cursor.readName.2
  | readOpeningTag, cursor => cursor.readOpeningTag.2
  | readClosingTag, cursor => cursor.readClosingTag.2
  | readAttributes, cursor => cursor.readAttributes.2
  | readQuotedValue quote, cursor => (cursor.readQuotedValue quote).2
  | readUnquotedValue, cursor => cursor.readUnquotedValue.2
  | readRawBody kind name, cursor => (cursor.readRawBody kind name).2

/-- Where movements lead that follow one another. -/
def run (movements : List Movement) (cursor : Cursor) : Cursor :=
  movements.foldl (fun place movement => movement.apply place) cursor

end Movement

def StaticAttribute.texts (written : StaticAttribute) : List String :=
  written.name :: written.value.toList

/-- The texts of a directive that stand in the source.  The name of a binding is not written there. -/
def Directive.texts (directive : Directive) : List String :=
  (if directive.name = bindingName then [] else [directive.name]) ++
    (directive.modifier.toList ++ directive.value.toList)

def Attribute.texts : Attribute → List String
  | .plain written => written.texts
  | .directive written => written.texts

def Tag.texts (tag : Tag) : List String :=
  tag.name :: (tag.attributes.flatMap StaticAttribute.texts ++ tag.directives.flatMap Directive.texts)

/-- The texts that a movement takes from the source. -/
def Movement.texts : Movement → Cursor → List (List Char)
  | skipWhitespace, cursor => [cursor.skipWhitespace.textSince cursor.offset]
  | consumeWhile belongs, cursor => [(cursor.skipWhile belongs).textSince cursor.offset]
  | readText, cursor => [cursor.readText.1.text.toList]
  | readName, cursor => [cursor.readName.1]
  | readOpeningTag, cursor => cursor.readOpeningTag.1.tag.texts.map String.toList
  | readClosingTag, cursor => [cursor.readClosingTag.1.name.toList]
  | readAttributes, cursor => (cursor.readAttributes.1.flatMap Attribute.texts).map String.toList
  | readQuotedValue quote, cursor => [(cursor.readQuotedValue quote).1]
  | readUnquotedValue, cursor => [cursor.readUnquotedValue.1]
  | readRawBody kind name, cursor => [(cursor.readRawBody kind name).1.text.toList]
  | _, _ => []

/-- A text made of slices of the source that follow one another between two byte offsets. -/
inductive IsCutOut (source : List Char) : Nat → Nat → List Char → Prop where
  | nothing {first last : Nat} (inOrder : first ≤ last) : IsCutOut source first last []
  | slice {first start stop last : Nat} {piece rest : List Char} (inOrder : first ≤ start)
      (isSlice : sliceBytes? start stop source = some piece)
      (later : IsCutOut source stop last rest) : IsCutOut source first last (piece ++ rest)

theorem splitAtByte?_byteLength (first second : List Char) :
    splitAtByte? (byteLength first) (first ++ second) = some (first, second) := by
  induction first with
  | nil => cases second <;> rfl
  | cons character rest ih =>
      obtain ⟨bytes, size⟩ : ∃ bytes, character.utf8Size = bytes + 1 :=
        ⟨_, (Nat.succ_pred_eq_of_pos character.utf8Size_pos).symm⟩
      have length : byteLength (character :: rest) = bytes + byteLength rest + 1 := by
        rw [byteLength, size, Nat.add_right_comm]
      have left : bytes + byteLength rest + 1 - character.utf8Size = byteLength rest := by omega
      rw [length, List.cons_append, splitAtByte?, if_pos (by omega), left, ih]
      rfl

namespace Cursor

/-- The cursor stands between two characters of the source. -/
structure IsWithin (source : List Char) (cursor : Cursor) : Prop where
  source_eq : cursor.source = source
  offset_eq : cursor.offset = byteLength cursor.behind.reverse

variable {source text : List Char} {start middle stop : Cursor}

theorem isWithin_atStart (source : String) (start : Position) :
    (atStart source start).IsWithin source.toList :=
  ⟨rfl, rfl⟩

theorem IsWithin.of_passes (within : start.IsWithin source) (passes : Passes text start stop) :
    stop.IsWithin source where
  source_eq := by
    rw [← within.source_eq, Cursor.source, Cursor.source, passes.behind_eq, passes.ahead_eq,
      List.reverse_append, List.reverse_reverse, List.append_assoc]
  offset_eq := by
    rw [passes.offset_eq, within.offset_eq, passes.behind_eq, List.reverse_append,
      List.reverse_reverse, byteLength_append]

theorem IsWithin.of_leadsTo (within : start.IsWithin source) (leads : LeadsTo start stop) :
    stop.IsWithin source := by
  obtain ⟨_, passes⟩ := leads
  exact within.of_passes passes

theorem IsWithin.splitAtByte?_eq (within : start.IsWithin source) :
    splitAtByte? start.offset source = some (start.behind.reverse, start.ahead) := by
  rw [within.offset_eq, ← within.source_eq, Cursor.source, splitAtByte?_byteLength]

/-- The text between two places is the slice of the source between their offsets. -/
theorem Passes.sliceBytes?_eq (passes : Passes text start stop) (within : start.IsWithin source) :
    sliceBytes? start.offset stop.offset source = some text := by
  have length : stop.offset - start.offset = byteLength text := by
    rw [passes.offset_eq, Nat.add_sub_cancel_left]
  rw [sliceBytes?, if_pos (passes.offset_eq ▸ Nat.le_add_right _ _), within.splitAtByte?_eq, length]
  show (splitAtByte? (byteLength text) start.ahead).bind _ = _
  rw [passes.ahead_eq, splitAtByte?_byteLength]
  rfl

theorem LeadsTo.offset_le (leads : LeadsTo start stop) : start.offset ≤ stop.offset := by
  obtain ⟨_, passes⟩ := leads
  exact passes.offset_eq ▸ Nat.le_add_right _ _

theorem Passes.exists_split {later : List Char} (passes : Passes (text ++ later) start stop) :
    ∃ middle, Passes text start middle ∧ Passes later middle stop := by
  obtain ⟨middle, first, ahead⟩ := exists_passes (passes.ahead_eq.trans (List.append_assoc _ _ _))
  obtain ⟨other, second, -⟩ := exists_passes ahead
  exact ⟨middle, first, (first.trans second).unique passes ▸ second⟩

theorem Passes.isCutOut (passes : Passes text middle stop) (within : start.IsWithin source)
    (leads : LeadsTo start middle) {last : Nat} (inOrder : stop.offset ≤ last) :
    IsCutOut source start.offset last text := by
  have isSlice := passes.sliceBytes?_eq (within.of_leadsTo leads)
  rw [← List.append_nil text]
  exact .slice leads.offset_le isSlice (.nothing inOrder)

theorem LeadsTo.isCutOut (leads : LeadsTo start stop) (within : start.IsWithin source) :
    IsCutOut source start.offset stop.offset (stop.textSince start.offset) := by
  obtain ⟨text, passes⟩ := leads
  rw [passes.textSince_eq]
  exact passes.isCutOut within (.refl _) (Nat.le_refl _)

end Cursor

theorem IsCutOut.mono {source text : List Char} {first first' last last' : Nat}
    (cut : IsCutOut source first last text) (lower : first' ≤ first) (upper : last ≤ last') :
    IsCutOut source first' last' text := by
  induction cut generalizing first' with
  | nothing inOrder => exact .nothing (Nat.le_trans lower (Nat.le_trans inOrder upper))
  | slice inOrder isSlice _ ih =>
      exact .slice (Nat.le_trans lower inOrder) isSlice (ih (Nat.le_refl _) upper)

namespace Cursor

variable {source : List Char} {cursor : Cursor}

theorem isCutOut_readText (within : cursor.IsWithin source) :
    IsCutOut source cursor.offset cursor.readText.2.offset cursor.readText.1.text.toList := by
  show IsCutOut source cursor.offset cursor.readTextPieces.2.offset
    (String.ofList cursor.readTextPieces.1).toList
  rw [String.toList_ofList]
  fun_induction readTextPieces cursor with
  | case1 cursor pieceEnd piece isComment later ih =>
      have toPiece := leadsTo_seek cursor endsTextPiece
      have afterComment := leadsTo_skipComment pieceEnd
      obtain ⟨text, passes⟩ := toPiece
      have written : piece = text := passes.textSince_eq
      rw [written]
      refine .slice (Nat.le_refl _) (passes.sliceBytes?_eq within) ?_
      exact (ih ((within.of_passes passes).of_leadsTo afterComment)).mono afterComment.offset_le
        (Nat.le_refl _)
  | case2 cursor pieceEnd piece notComment => exact (leadsTo_seek cursor _).isCutOut within

theorem isCutOut_readName (within : cursor.IsWithin source) :
    IsCutOut source cursor.offset cursor.readName.2.offset cursor.readName.1 :=
  (leadsTo_readName cursor).isCutOut within

theorem isCutOut_readQuotedValue (within : cursor.IsWithin source) (quote : Char) :
    IsCutOut source cursor.offset (cursor.readQuotedValue quote).2.offset
      (cursor.readQuotedValue quote).1 :=
  ((leadsTo_seek cursor _).isCutOut within).mono (Nat.le_refl _) (leadsTo_advance _).offset_le

theorem isCutOut_readUnquotedValue (within : cursor.IsWithin source) :
    IsCutOut source cursor.offset cursor.readUnquotedValue.2.offset cursor.readUnquotedValue.1 :=
  (leadsTo_seek cursor _).isCutOut within

theorem isCutOut_readRawBody (within : cursor.IsWithin source) (kind : RawKind) (name : List Char) :
    IsCutOut source cursor.offset (cursor.readRawBody kind name).2.offset
      (cursor.readRawBody kind name).1.text.toList := by
  have body := (leadsTo_seekBodyEnd cursor kind name cursor.ahead 0 none).isCutOut within
  show IsCutOut _ _ _ (String.ofList _).toList
  rw [String.toList_ofList]
  exact body.mono (Nat.le_refl _) (leadsTo_readClosingTag _).offset_le

theorem isCutOut_readAttributeValue (within : cursor.IsWithin source) (backtickQuotes : Bool) :
    ∀ value ∈ (cursor.readAttributeValue backtickQuotes).1,
      IsCutOut source cursor.offset (cursor.readAttributeValue backtickQuotes).2.offset value := by
  unfold readAttributeValue
  split
  · exact nofun
  · simp only
    split
    · rintro value ⟨⟩
      have step := leadsTo_advance cursor
      exact (isCutOut_readQuotedValue (within.of_leadsTo step) _).mono step.offset_le (Nat.le_refl _)
    · rintro value ⟨⟩
      exact isCutOut_readUnquotedValue within

theorem isCutOut_readAssignedValue (within : cursor.IsWithin source) (backtickQuotes : Bool) :
    ∀ value ∈ (cursor.readAssignedValue backtickQuotes).1,
      IsCutOut source cursor.offset (cursor.readAssignedValue backtickQuotes).2.offset value := by
  have afterName : LeadsTo cursor cursor.skipWhitespace := leadsTo_seek cursor _
  unfold readAssignedValue
  simp only
  split
  · intro value isValue
    have toValue : LeadsTo cursor cursor.skipWhitespace.advance.skipWhitespace :=
      (afterName.trans (leadsTo_advance _)).trans (leadsTo_seek _ _)
    exact (isCutOut_readAttributeValue (within.of_leadsTo toValue) backtickQuotes value isValue).mono
      toValue.offset_le (Nat.le_refl _)
  · exact nofun

/-- The two parts of a written name are cut out at the colon. -/
theorem isCutOut_splitModifier {written : List Char} {start stop : Cursor}
    (passes : Passes written start stop) (within : start.IsWithin source) :
    IsCutOut source start.offset stop.offset (Attribute.splitModifier written).1.toList ∧
      ∀ modifier ∈ (Attribute.splitModifier written).2,
        IsCutOut source start.offset stop.offset modifier.toList := by
  have parts := List.takeWhile_append_dropWhile (p := (· != ':')) (l := written)
  rw [← parts] at passes
  obtain ⟨middle, toColon, fromColon⟩ := passes.exists_split
  have name : IsCutOut source start.offset stop.offset (written.takeWhile (· != ':')) :=
    toColon.isCutOut within (.refl _) (LeadsTo.offset_le ⟨_, fromColon⟩)
  unfold Attribute.splitModifier
  cases rest : written.dropWhile (· != ':') with
  | nil =>
      simp only [String.toList_ofList]
      exact ⟨name, nofun⟩
  | cons colon modifier =>
      rw [rest] at fromColon
      simp only [String.toList_ofList]
      refine ⟨name, ?_⟩
      rintro written ⟨⟩
      cases fromColon with
      | next ahead later =>
          rw [String.toList_ofList]
          exact later.isCutOut within (.trans ⟨_, toColon⟩ (leadsTo_advance _)) (Nat.le_refl _)

/-- The texts of a directive are cut out of its name and of its value. -/
theorem isCutOut_directiveOf {written : List Char} {start stop : Cursor}
    (passes : Passes written start stop) (within : start.IsWithin source) {last : Nat}
    (inOrder : stop.offset ≤ last) (sigil : Char) {value : Option (List Char)} (position : Position)
    (cutValue : ∀ text ∈ value, IsCutOut source start.offset last text) :
    ∀ text ∈ (Attribute.directiveOf sigil written value position).texts,
      IsCutOut source start.offset last text.toList := by
  have whole : IsCutOut source start.offset last written := passes.isCutOut within (.refl _) inOrder
  obtain ⟨name, modifier⟩ := isCutOut_splitModifier passes within
  intro text isText
  rcases List.mem_append.mp isText with isName | isText
  · unfold Attribute.directiveOf at isName
    by_cases isBinding : sigil == ':'
    · simp [isBinding] at isName
    · rw [if_neg isBinding] at isName
      split at isName
      · cases isName
      · rw [List.mem_singleton.mp isName]
        exact name.mono (Nat.le_refl _) inOrder
  · rcases List.mem_append.mp isText with isModifier | isValue
    · unfold Attribute.directiveOf at isModifier
      by_cases isBinding : sigil == ':'
      · rw [if_pos isBinding] at isModifier
        simp only at isModifier
        split at isModifier
        · cases isModifier
        · rw [List.mem_singleton.mp isModifier, String.toList_ofList]
          exact whole
      · rw [if_neg isBinding] at isModifier
        exact (modifier text (Option.mem_toList.mp isModifier)).mono (Nat.le_refl _) inOrder
    · obtain ⟨read, isRead, rfl⟩ := Option.map_eq_some_iff.mp (Option.mem_toList.mp isValue)
      rw [String.toList_ofList]
      exact cutValue read isRead

theorem isCutOut_readAttribute (within : cursor.IsWithin source) :
    ∀ text ∈ cursor.readAttribute.1.texts,
      IsCutOut source cursor.offset cursor.readAttribute.2.offset text.toList := by
  unfold readAttribute
  cases cursor.sigil? with
  | none =>
      have toName : LeadsTo cursor (cursor.skipWhile isNameCharacter) := leadsTo_seek cursor _
      have name := (toName.isCutOut within).mono (Nat.le_refl _)
        (leadsTo_readAssignedValue _ false).offset_le
      have value := isCutOut_readAssignedValue (within.of_leadsTo toName) false
      intro text isText
      rcases List.mem_cons.mp isText with rfl | isValue
      · rw [String.toList_ofList]
        exact name
      · obtain ⟨written, isWritten, rfl⟩ := Option.map_eq_some_iff.mp (Option.mem_toList.mp isValue)
        rw [String.toList_ofList]
        exact (value written isWritten).mono toName.offset_le (Nat.le_refl _)
  | some sigil =>
      have toName := leadsTo_advance cursor
      have overName : LeadsTo cursor.advance (cursor.advance.skipWhile isNameCharacter) :=
        leadsTo_seek _ _
      have later := leadsTo_readAssignedValue (cursor.advance.skipWhile isNameCharacter) true
      have value := isCutOut_readAssignedValue (within.of_leadsTo (toName.trans overName)) true
      obtain ⟨written, passes⟩ := overName
      have isWritten := passes.textSince_eq
      simp only [isWritten]
      intro text isText
      refine (isCutOut_directiveOf passes (within.of_leadsTo toName) later.offset_le sigil
        cursor.position ?_ text isText).mono toName.offset_le (Nat.le_refl _)
      exact fun text isValue => (value text isValue).mono (LeadsTo.offset_le ⟨_, passes⟩)
        (Nat.le_refl _)

theorem isCutOut_readAttributes (within : cursor.IsWithin source) :
    ∀ text ∈ cursor.readAttributes.1.flatMap Attribute.texts,
      IsCutOut source cursor.offset cursor.readAttributes.2.offset text.toList := by
  fun_induction readAttributes cursor with
  | case1 cursor place isOn first later ih =>
      have toPlace : LeadsTo cursor place := leadsTo_seek cursor _
      have withinPlace := within.of_leadsTo toPlace
      have overFirst : LeadsTo place first.2 := leadsTo_readAttribute place
      have overLater : LeadsTo first.2 later.2 := leadsTo_readAttributes first.2
      intro text isText
      rw [List.flatMap_cons] at isText
      rcases List.mem_append.mp isText with isFirst | isLater
      · exact (isCutOut_readAttribute withinPlace text isFirst).mono toPlace.offset_le
          overLater.offset_le
      · exact (ih (withinPlace.of_leadsTo overFirst) text isLater).mono
          (toPlace.trans overFirst).offset_le (Nat.le_refl _)
  | case2 =>
      intro text isText
      cases isText

/-- The texts of the two kinds of attributes are those of all attributes. -/
theorem mem_texts_of_mem_filterMap {attributes : List Attribute} {text : String}
    (isText : text ∈ (attributes.filterMap Attribute.plain?).flatMap StaticAttribute.texts ++
      (attributes.filterMap Attribute.directive?).flatMap Directive.texts) :
    text ∈ attributes.flatMap Attribute.texts := by
  rcases List.mem_append.mp isText with isText | isText
  all_goals
    obtain ⟨written, isWritten, isText⟩ := List.mem_flatMap.mp isText
    obtain ⟨either, isEither, same⟩ := List.mem_filterMap.mp isWritten
    refine List.mem_flatMap.mpr ⟨either, isEither, ?_⟩
    cases either <;> cases same
    exact isText

theorem isCutOut_readOpeningTag (within : cursor.IsWithin source) :
    ∀ text ∈ cursor.readOpeningTag.1.tag.texts,
      IsCutOut source cursor.offset cursor.readOpeningTag.2.offset text.toList := by
  have toName := leadsTo_skip cursor ['<']
  have withinName := within.of_leadsTo toName
  have overName := leadsTo_readName (cursor.skip ['<'])
  have overAttributes := leadsTo_readAttributes (cursor.skip ['<']).readName.2
  have overEnd := leadsTo_skipTagEnd (cursor.skip ['<']).readName.2.readAttributes.2
  intro text isText
  rcases List.mem_cons.mp isText with rfl | isText
  · show IsCutOut _ _ _ (String.ofList _).toList
    rw [String.toList_ofList]
    exact (isCutOut_readName withinName).mono toName.offset_le (overAttributes.trans overEnd).offset_le
  · exact (isCutOut_readAttributes (withinName.of_leadsTo overName) text
      (mem_texts_of_mem_filterMap isText)).mono (toName.trans overName).offset_le overEnd.offset_le

theorem isCutOut_readClosingTag (within : cursor.IsWithin source) :
    IsCutOut source cursor.offset cursor.readClosingTag.2.offset
      cursor.readClosingTag.1.name.toList := by
  have toName := leadsTo_skip cursor closingTagOpener
  show IsCutOut _ _ _ (String.ofList _).toList
  rw [String.toList_ofList]
  exact (isCutOut_readName (within.of_leadsTo toName)).mono toName.offset_le
    (leadsTo_skipPast _ '>').offset_le

end Cursor

namespace Movement

open Cursor

variable {source : List Char} {cursor : Cursor}

theorem leadsTo_apply (movement : Movement) (cursor : Cursor) :
    LeadsTo cursor (movement.apply cursor) := by
  cases movement with
  | advance => exact leadsTo_advance cursor
  | advanceBy count => exact leadsTo_advanceBy cursor count
  | consume text => exact leadsTo_skip cursor text
  | skipWhitespace => exact leadsTo_seek cursor _
  | consumeWhile belongs => exact leadsTo_seek cursor _
  | skipComment => exact leadsTo_skipComment cursor
  | readText => exact leadsTo_readText cursor
  | readName => exact leadsTo_readName cursor
  | readOpeningTag => exact leadsTo_readOpeningTag cursor
  | readClosingTag => exact leadsTo_readClosingTag cursor
  | readAttributes => exact leadsTo_readAttributes cursor
  | readQuotedValue quote => exact (leadsTo_seek cursor _).trans (leadsTo_advance _)
  | readUnquotedValue => exact leadsTo_seek cursor _
  | readRawBody kind name => exact leadsTo_readRawBody cursor kind name

theorem leadsTo_run (movements : List Movement) (cursor : Cursor) :
    LeadsTo cursor (run movements cursor) := by
  induction movements generalizing cursor with
  | nil => exact .refl cursor
  | cons movement movements ih => exact (movement.leadsTo_apply cursor).trans (ih _)

/-- What a movement takes from the source is cut out between its two ends. -/
theorem isCutOut_texts (movement : Movement) (within : cursor.IsWithin source) :
    ∀ text ∈ movement.texts cursor,
      IsCutOut source cursor.offset (movement.apply cursor).offset text := by
  cases movement with
  | advance | advanceBy | consume | skipComment => exact nofun
  | skipWhitespace | consumeWhile =>
      exact List.forall_mem_singleton.mpr ((leadsTo_seek cursor _).isCutOut within)
  | readText => exact List.forall_mem_singleton.mpr (isCutOut_readText within)
  | readName => exact List.forall_mem_singleton.mpr (isCutOut_readName within)
  | readOpeningTag => exact List.forall_mem_map.mpr (isCutOut_readOpeningTag within)
  | readClosingTag => exact List.forall_mem_singleton.mpr (isCutOut_readClosingTag within)
  | readAttributes => exact List.forall_mem_map.mpr (isCutOut_readAttributes within)
  | readQuotedValue quote =>
      exact List.forall_mem_singleton.mpr (isCutOut_readQuotedValue within quote)
  | readUnquotedValue => exact List.forall_mem_singleton.mpr (isCutOut_readUnquotedValue within)
  | readRawBody kind name =>
      exact List.forall_mem_singleton.mpr (isCutOut_readRawBody within kind name)

end Movement

namespace Cursor

variable {source : List Char}

/-- Of two places that are reached from the same one, one leads to the other. -/
theorem LeadsTo.total {start first second : Cursor} (toFirst : LeadsTo start first)
    (toSecond : LeadsTo start second) : LeadsTo first second ∨ LeadsTo second first := by
  obtain ⟨text, passes⟩ := toFirst
  obtain ⟨other, passes'⟩ := toSecond
  have ahead := passes.ahead_eq.symm.trans passes'.ahead_eq
  rcases List.append_eq_append_iff.mp ahead with ⟨more, rfl, -⟩ | ⟨more, rfl, -⟩
  · obtain ⟨middle, before, after⟩ := passes'.exists_split
    exact .inl ⟨more, passes.unique before ▸ after⟩
  · obtain ⟨middle, before, after⟩ := passes.exists_split
    exact .inr ⟨more, passes'.unique before ▸ after⟩

theorem LeadsTo.offset_lt_of_ne {start stop : Cursor} (leads : LeadsTo start stop)
    (moved : start ≠ stop) : start.offset < stop.offset := by
  obtain ⟨text, passes⟩ := leads
  cases passes with
  | done => exact absurd rfl moved
  | @next character rest text start stop ahead later =>
      have onward : start.advance.offset ≤ stop.offset := LeadsTo.offset_le ⟨_, later⟩
      rw [advance_of_ahead_cons ahead] at onward
      exact Nat.lt_of_lt_of_le (Nat.lt_add_of_pos_right character.utf8Size_pos) onward

/-- A place behind another one has a smaller position, unless only the carriage return of a line break
is between them. -/
theorem LeadsTo.compare_position {start stop : Cursor} (leads : LeadsTo start stop)
    (within : start.IsWithin source) (moved : start.offset < stop.offset) :
    compare start.position stop.position = .lt ∨
      ∃ before after, source = before ++ '\r' :: '\n' :: after ∧
        start.offset = byteLength before ∧ stop.offset = byteLength (before ++ ['\r']) := by
  obtain ⟨text, passes⟩ := leads
  have nonempty : text ≠ [] := by
    rintro rfl
    rw [passes.offset_eq] at moved
    exact absurd moved (Nat.lt_irrefl _)
  rw [passes.position_eq]
  refine (start.position.compare_past nonempty).imp_right ?_
  rintro ⟨rfl, onLineFeed⟩
  obtain ⟨after, ahead⟩ := List.head?_eq_some_iff.mp onLineFeed
  refine ⟨start.behind.reverse, after, ?_, within.offset_eq, ?_⟩
  · rw [← within.source_eq, Cursor.source, passes.ahead_eq, ahead]
    rfl
  · rw [passes.offset_eq, within.offset_eq, byteLength_append]

end Cursor

open Cursor in
/-- However a cursor has been moved, it stands between two characters of the source and at the position
where the text before it ends.  A further movement never takes it back, and takes from the source only
what is between its two ends.  Two places with one offset are the same; between two others is a slice
of the source, and their positions are in the same order, unless that slice is the carriage return of a
line break. -/
theorem Movement.run_isWithin (source : String) (start : Position) (movements : List Movement) :
    let cursor := run movements (.atStart source start)
    (∃ read, splitAtByte? cursor.offset source.toList = some (read, cursor.ahead) ∧
      cursor.offset = byteLength read ∧ cursor.offset ≤ byteLength source.toList ∧
      cursor.position = start.past cursor.current? read) ∧
    (∀ movement : Movement, cursor.offset ≤ (movement.apply cursor).offset ∧
      ∀ text ∈ movement.texts cursor,
        IsCutOut source.toList cursor.offset (movement.apply cursor).offset text) ∧
    ∀ others : List Movement,
      let other := run others (.atStart source start)
      (cursor.offset = other.offset → cursor = other) ∧
      (cursor.offset < other.offset →
        sliceBytes? cursor.offset other.offset source.toList =
          some (other.textSince cursor.offset) ∧
        (compare cursor.position other.position = .lt ∨
          ∃ before after, source.toList = before ++ '\r' :: '\n' :: after ∧
            cursor.offset = byteLength before ∧
            other.offset = byteLength (before ++ ['\r']))) := by
  intro cursor
  have reached : LeadsTo (.atStart source start) cursor := leadsTo_run movements _
  have within := (isWithin_atStart source start).of_leadsTo reached
  refine ⟨?_, fun movement => ?_, fun others => ?_⟩
  · obtain ⟨read, passes⟩ := reached
    have behind : cursor.behind.reverse = read := by
      rw [passes.behind_eq, List.reverse_append, List.reverse_reverse]
      rfl
    have whole : source.toList = read ++ cursor.ahead := passes.ahead_eq
    refine ⟨read, behind ▸ within.splitAtByte?_eq, behind ▸ within.offset_eq, ?_,
      passes.position_eq⟩
    rw [whole, byteLength_append, within.offset_eq, behind]
    exact Nat.le_add_right _ _
  · exact ⟨(movement.leadsTo_apply cursor).offset_le, movement.isCutOut_texts within⟩
  · intro other
    have reached' : LeadsTo (.atStart source start) other := leadsTo_run others _
    rcases reached.total reached' with onward | back
    · refine ⟨fun same => ?_, fun moved => ⟨?_, onward.compare_position within moved⟩⟩
      · by_contra moved
        exact absurd same (Nat.ne_of_lt (onward.offset_lt_of_ne moved))
      · obtain ⟨text, passes⟩ := onward
        rw [passes.sliceBytes?_eq within, passes.textSince_eq]
    · refine ⟨fun same => ?_, fun moved => absurd moved (Nat.not_lt.mpr back.offset_le)⟩
      by_contra moved
      exact absurd same.symm (Nat.ne_of_lt (back.offset_lt_of_ne (Ne.symm moved)))

end TemplateMarkup
