import TemplateMarkup.Proofs.Markup.WholeTags
import TemplateMarkup.Proofs.Text.Respacing

/-!
# White space inside of tags

Inside of a tag white space separates and means nothing else.  It is met after a name, around an equals
sign and between attributes; a quoted value is not looked into.  In a closing tag everything after the
name is passed over.

Two sources that differ in one such run of white space fork at this run.  What is read before it is
read alike, since the sources have not forked yet, and what is read after it is read alike, since the
same text is ahead again.
-/

namespace TemplateMarkup

open CharacterClass

namespace Cursor

/-- Reading leads from the first place over the last one to the second. -/
def Between (start stop place : Cursor) : Prop :=
  LeadsTo start place ∧ LeadsTo place stop

/-- Where the name of the attribute ahead starts: after its sigil, if it has one. -/
def attributeNameStart (cursor : Cursor) : Cursor :=
  match cursor.sigil? with
  | none => cursor
  | some _ => cursor.advance

def attributeNameEnd (cursor : Cursor) : Cursor :=
  cursor.attributeNameStart.readName.2

/-- The place is met between the name of an attribute and its value. -/
inductive MeetsBeforeValue (nameEnd place : Cursor) : Prop where
  | beforeEquals (between : Between nameEnd nameEnd.skipWhitespace place)
  | afterEquals (isAssigned : nameEnd.skipWhitespace.startsWith ['='])
      (between : Between nameEnd.skipWhitespace.advance
        nameEnd.skipWhitespace.advance.skipWhitespace place)

/-- The place is met while attributes are read, and outside of their values. -/
inductive MeetsAmongAttributes (place : Cursor) : Cursor → Prop where
  | gap {start : Cursor} (between : Between start start.skipToAttribute place) :
      MeetsAmongAttributes place start
  | beforeValue {start : Cursor} (isOn : start.skipToAttribute.isOn isNameCharacter)
      (meets : MeetsBeforeValue start.skipToAttribute.attributeNameEnd place) :
      MeetsAmongAttributes place start
  | later {start : Cursor} (isOn : start.skipToAttribute.isOn isNameCharacter)
      (meets : MeetsAmongAttributes place start.skipToAttribute.readAttribute.2) :
      MeetsAmongAttributes place start

def MeetsInOpeningTag (start place : Cursor) : Prop :=
  MeetsAmongAttributes place (start.skip ['<']).readName.2

/-- The place is met after the name of a closing tag. -/
def MeetsInClosingTag (start place : Cursor) : Prop :=
  Between (start.skip closingTagOpener).readName.2 start.closingTagEnd place

/-- The place is met in an opening tag or in the closing tag of the raw body that follows it. -/
inductive MeetsInElementStart (start place : Cursor) : Prop where
  | openingTag (meets : start.MeetsInOpeningTag place)
  | closingTag {kind : RawKind} (isRaw : start.readOpeningTag.1.rawKind? = some kind)
      (meets : (start.readOpeningTag.2.bodyEnd kind
        start.readOpeningTag.1.tag.name.toList).MeetsInClosingTag place)

/-- The place is met in the first tag after a text run. -/
inductive MeetsInTag (turn place : Cursor) : Prop where
  | opening (isAhead : turn.readText.2.isOpeningTagAhead)
      (meets : turn.readText.2.MeetsInElementStart place)
  | closing (isAhead : turn.readText.2.isClosingTagAhead)
      (meets : turn.readText.2.MeetsInClosingTag place)

section Ways

variable {start place : Cursor}

theorem leadsTo_attributeNameStart (cursor : Cursor) :
    LeadsTo cursor cursor.attributeNameStart := by
  unfold attributeNameStart
  split
  · rfl
  · exact leadsTo_advance cursor

theorem leadsTo_attributeNameEnd (cursor : Cursor) : LeadsTo cursor cursor.attributeNameEnd :=
  (leadsTo_attributeNameStart cursor).trans (leadsTo_readName _)

theorem MeetsBeforeValue.leadsTo (meets : MeetsBeforeValue start place) : LeadsTo start place := by
  cases meets with
  | beforeEquals between => exact between.1
  | afterEquals _ between =>
      exact ((leadsTo_seek start _).trans (leadsTo_advance _)).trans between.1

theorem MeetsAmongAttributes.leadsTo (meets : MeetsAmongAttributes place start) :
    LeadsTo start place := by
  induction meets with
  | gap between => exact between.1
  | beforeValue _ meets =>
      exact ((leadsTo_seek _ _).trans (leadsTo_attributeNameEnd _)).trans meets.leadsTo
  | later _ _ ih => exact ((leadsTo_seek _ _).trans (leadsTo_readAttribute _)).trans ih

theorem MeetsInOpeningTag.leadsTo (meets : start.MeetsInOpeningTag place) : LeadsTo start place :=
  ((leadsTo_skip start _).trans (leadsTo_readName _)).trans (MeetsAmongAttributes.leadsTo meets)

theorem MeetsInClosingTag.leadsTo (meets : start.MeetsInClosingTag place) : LeadsTo start place :=
  ((leadsTo_skip start _).trans (leadsTo_readName _)).trans meets.1

theorem MeetsInElementStart.leadsTo (meets : start.MeetsInElementStart place) :
    LeadsTo start place := by
  cases meets with
  | openingTag meets => exact meets.leadsTo
  | closingTag _ meets =>
      exact ((leadsTo_readOpeningTag start).trans (leadsTo_bodyEnd _ _ _)).trans meets.leadsTo

theorem MeetsInTag.leadsTo_readText (meets : start.MeetsInTag place) :
    LeadsTo start.readText.2 place := by
  cases meets with
  | opening _ meets => exact meets.leadsTo
  | closing _ meets => exact meets.leadsTo

end Ways

end Cursor

/-- Sources fork at a run of white space that is another one in the second source. -/
def Fork.respacing {run run' : List Char} (space : IsSpace run) (space' : IsSpace run')
    (after : List Char) : Fork where
  rest := run ++ after
  rest' := run' ++ after
  alike := by
    obtain ⟨nonempty, all⟩ := space
    obtain ⟨nonempty', all'⟩ := space'
    cases run with
    | nil => exact absurd rfl nonempty
    | cons first rest =>
        cases run' with
        | nil => exact absurd rfl nonempty'
        | cons first' rest' => exact .space (all first (by simp)) (all' first' (by simp)) _ _

namespace Cursor

variable {run run' after : List Char} {space : IsSpace run} {space' : IsSpace run'}
variable {cursor other place : Cursor} {halts : Cursor → Bool}

variable (space space') in
theorem precedes_respacing (leads : LeadsTo cursor place) (ahead : place.ahead = run ++ after) :
    (Fork.respacing space space' after).Precedes cursor := by
  have within := leads.remaining_le
  rw [remaining, ahead] at within
  exact within

/-- A search that comes past a place comes to the same from there on. -/
theorem seek_past_place {text : List Char} (passes : Passes text cursor place)
    (alike : (Fork.respacing space space' after).Alike halts)
    (related : (Fork.respacing space space' after).Relates cursor other)
    (within : LeadsTo place (cursor.seek halts)) (ahead : place.ahead = run ++ after) :
    ∃ place' : Cursor, place'.ahead = run' ++ after ∧ cursor.seek halts = place.seek halts ∧
      other.seek halts = place'.seek halts := by
  induction passes generalizing other with
  | done cursor =>
      obtain ⟨text, aheadText, ahead'⟩ := related
      have nothing : text = [] :=
        List.append_left_eq_self.mp (aheadText.symm.trans ahead)
      subst nothing
      exact ⟨other, ahead', rfl, rfl⟩
  | @next character rest text cursor place aheadCursor passes ih =>
      have closer : place.remaining < cursor.remaining :=
        Nat.lt_of_le_of_lt (LeadsTo.remaining_le ⟨text, passes⟩)
          (remaining_advance_lt (by simp [aheadCursor]))
      have goesOn : halts cursor = false := by
        rw [Bool.eq_false_iff]
        intro halted
        rw [seek_of_halts halted] at within
        exact absurd within.remaining_le (Nat.not_le.mpr closer)
      have goesOn' : halts other = false := (alike.eq related).trans goesOn
      rw [seek_of_not_halts goesOn] at within ⊢
      rw [seek_of_not_halts goesOn']
      rcases related.cases with ⟨atFork, -⟩ | ⟨-, -, -, -, -, next⟩
      · have same : cursor.remaining = place.remaining :=
          congrArg List.length (atFork.trans ahead.symm)
        exact absurd closer (by simp [same])
      · exact ih next within ahead

/-- A search that white space does not end goes on behind the white space. -/
theorem seek_past_space (passesSpace : ∀ {place : Cursor}, place.isOn isWhitespace → halts place = false)
    (all : ∀ character ∈ run, isWhitespace character) (ahead : cursor.ahead = run ++ after) :
    ∃ place : Cursor, place.ahead = after ∧ cursor.seek halts = place.seek halts := by
  induction run generalizing cursor with
  | nil => exact ⟨cursor, ahead, rfl⟩
  | cons first rest ih =>
      have isSpace : cursor.isOn isWhitespace := by
        rw [isOn_of_ahead_cons ahead]
        exact all first (by simp)
      rw [seek_of_not_halts (passesSpace isSpace)]
      exact ih (fun character member => all character (List.mem_cons_of_mem _ member))
        (by rw [advance_of_ahead_cons ahead, List.append_eq])

/-- A search across the white space comes to the same text in both sources. -/
theorem ahead_seek_respacing (alike : ∀ fork : Fork, fork.Alike halts)
    (passesSpace : ∀ {place : Cursor}, place.isOn isWhitespace → halts place = false)
    (related : (Fork.respacing space space' after).Relates cursor other)
    (between : Between cursor (cursor.seek halts) place) (ahead : place.ahead = run ++ after) :
    (other.seek halts).ahead = (cursor.seek halts).ahead := by
  obtain ⟨⟨text, passes⟩, within⟩ := between
  obtain ⟨place', ahead', sought, sought'⟩ :=
    seek_past_place passes (alike _) related within ahead
  obtain ⟨behind, aheadBehind, past⟩ := seek_past_space passesSpace space.2 ahead
  obtain ⟨behind', aheadBehind', past'⟩ := seek_past_space passesSpace space'.2 ahead'
  rw [sought, sought', past, past']
  exact ahead_eq_of_relates (Fork.relates_seek (alike _)
    (relates_of_ahead_eq (aheadBehind'.trans aheadBehind.symm)) (precedes_ended _))

theorem ahead_skipWhitespace_respacing
    (related : (Fork.respacing space space' after).Relates cursor other)
    (between : Between cursor cursor.skipWhitespace place) (ahead : place.ahead = run ++ after) :
    other.skipWhitespace.ahead = cursor.skipWhitespace.ahead :=
  ahead_seek_respacing (fun _ => (Fork.Alike.isOn (by decide)).not) (by simp) related between ahead

theorem not_isOn_of_isWhitespace (belongs : Char → Bool) (uniform : IsUniform belongs)
    (notSpace : belongs ' ' = false) (isSpace : cursor.isOn isWhitespace) :
    cursor.isOn belongs = false := by
  cases ahead : cursor.ahead with
  | nil => exact isOn_of_ahead_nil ahead
  | cons first rest =>
      rw [isOn_of_ahead_cons ahead] at isSpace ⊢
      rw [uniform.eq isSpace, notSpace]

theorem ahead_skipToAttribute_respacing
    (related : (Fork.respacing space space' after).Relates cursor other)
    (between : Between cursor cursor.skipToAttribute place) (ahead : place.ahead = run ++ after) :
    other.skipToAttribute.ahead = cursor.skipToAttribute.ahead := by
  refine ahead_seek_respacing (fun _ => Fork.alike_isAttributeOrTagEnd) ?_ related between ahead
  intro place isSpace
  have notSlash : place.isSelfClosingEndAhead = false := by
    have notOn := not_isOn_of_isWhitespace (· == '/') (by decide) (by decide) isSpace
    cases aheadPlace : place.ahead with
    | nil => exact startsWith_cons_eq_false (by simp [aheadPlace])
    | cons first rest =>
        rw [isOn_of_ahead_cons aheadPlace] at notOn
        exact isSelfClosingEndAhead_eq_false aheadPlace fun slash => by simp [slash] at notOn
  rw [not_isOn_of_isWhitespace _ (by decide) (by decide) isSpace, isTagEndAhead,
    not_isOn_of_isWhitespace _ (by decide) (by decide) isSpace, notSlash]
  rfl

theorem readAssignedValue_of_skipWhitespace (backtickQuotes : Bool)
    (sameAhead : other.skipWhitespace.ahead = cursor.skipWhitespace.ahead) :
    (other.readAssignedValue backtickQuotes).1 = (cursor.readAssignedValue backtickQuotes).1 ∧
      (other.readAssignedValue backtickQuotes).2.ahead =
        (cursor.readAssignedValue backtickQuotes).2.ahead := by
  have related := relates_of_ahead_eq sameAhead
  have sameEquals : other.skipWhitespace.startsWith ['='] = cursor.skipWhitespace.startsWith ['='] :=
    Fork.startsWith_eq (by decide) related
  unfold readAssignedValue
  simp only [sameEquals]
  cases cursor.skipWhitespace.startsWith ['='] with
  | false => exact ⟨rfl, sameAhead⟩
  | true =>
      have afterEquals := Fork.relates_advance related (precedes_ended _)
      obtain ⟨value, ends⟩ := Fork.readAttributeValue_eq backtickQuotes
        (Fork.relates_skipWhitespace afterEquals (precedes_ended _)) (precedes_ended _)
      exact ⟨value, ahead_eq_of_relates ends⟩

theorem readAssignedValue_respacing (backtickQuotes : Bool)
    (related : (Fork.respacing space space' after).Relates cursor other)
    (meets : MeetsBeforeValue cursor place) (ahead : place.ahead = run ++ after) :
    (other.readAssignedValue backtickQuotes).1 = (cursor.readAssignedValue backtickQuotes).1 ∧
      (other.readAssignedValue backtickQuotes).2.ahead =
        (cursor.readAssignedValue backtickQuotes).2.ahead := by
  cases meets with
  | beforeEquals between =>
      exact readAssignedValue_of_skipWhitespace backtickQuotes
        (ahead_skipWhitespace_respacing related between ahead)
  | afterEquals isAssigned between =>
      have atPlace := precedes_respacing space space' between.1 ahead
      have atEquals := Fork.relates_skipWhitespace related
        (atPlace.of_le (leadsTo_advance _).remaining_le)
      have sameAhead := ahead_skipWhitespace_respacing
        (Fork.relates_advance atEquals atPlace) between ahead
      have isAssigned' : other.skipWhitespace.startsWith ['='] :=
        (Fork.startsWith_eq (by decide) atEquals).trans isAssigned
      obtain ⟨value, ends⟩ := Fork.readAttributeValue_eq backtickQuotes
        (relates_of_ahead_eq sameAhead) (precedes_ended _)
      unfold readAssignedValue
      simp only [isAssigned, isAssigned', if_true]
      exact ⟨value, ahead_eq_of_relates ends⟩

theorem readAttribute_eq_of_value (sigil : other.sigil? = cursor.sigil?)
    (name : other.attributeNameStart.readName.1 = cursor.attributeNameStart.readName.1)
    (value : ∀ backtickQuotes,
      (other.attributeNameEnd.readAssignedValue backtickQuotes).1 =
          (cursor.attributeNameEnd.readAssignedValue backtickQuotes).1 ∧
        (other.attributeNameEnd.readAssignedValue backtickQuotes).2.ahead =
          (cursor.attributeNameEnd.readAssignedValue backtickQuotes).2.ahead) :
    other.readAttribute.1.reword .unplaced = cursor.readAttribute.1.reword .unplaced ∧
      other.readAttribute.2.ahead = cursor.readAttribute.2.ahead := by
  unfold attributeNameEnd attributeNameStart readName at *
  unfold readAttribute
  rw [sigil] at name value ⊢
  cases isSigil : cursor.sigil? with
  | none =>
      simp only [isSigil] at name value ⊢
      obtain ⟨sameValue, ends⟩ := value false
      rw [name, sameValue]
      exact ⟨rfl, ends⟩
  | some sigil =>
      simp only [isSigil] at name value ⊢
      obtain ⟨sameValue, ends⟩ := value true
      rw [name, sameValue]
      exact ⟨rfl, ends⟩

theorem readAttribute_respacing
    (related : (Fork.respacing space space' after).Relates cursor other)
    (onName : cursor.isOn isNameCharacter)
    (meets : MeetsBeforeValue cursor.attributeNameEnd place) (ahead : place.ahead = run ++ after) :
    other.readAttribute.1.reword .unplaced = cursor.readAttribute.1.reword .unplaced ∧
      other.readAttribute.2.ahead = cursor.readAttribute.2.ahead := by
  have sigil := Fork.sigil?_eq related onName
  have atNameEnd := precedes_respacing space space' meets.leadsTo ahead
  have nameStart : (Fork.respacing space space' after).Relates cursor.attributeNameStart
      other.attributeNameStart := by
    have atNameStart := atNameEnd.of_le (leadsTo_readName _).remaining_le
    unfold attributeNameStart at *
    rw [sigil]
    cases isSigil : cursor.sigil? with
    | none => exact related
    | some sigil =>
        rw [isSigil] at atNameStart
        exact Fork.relates_advance related atNameStart
  obtain ⟨name, -, nameEnd⟩ := Fork.readName_eq nameStart atNameEnd
  exact readAttribute_eq_of_value sigil name fun backtickQuotes =>
    readAssignedValue_respacing backtickQuotes nameEnd meets ahead

theorem readAttributes_of_ahead_eq (sameAhead : other.ahead = cursor.ahead) :
    other.readAttributes.1.map (·.reword .unplaced) =
        cursor.readAttributes.1.map (·.reword .unplaced) ∧
      other.readAttributes.2.ahead = cursor.readAttributes.2.ahead := by
  obtain ⟨attributes, ends⟩ :=
    Fork.readAttributes_eq (relates_of_ahead_eq sameAhead) (precedes_ended _)
  exact ⟨attributes, ahead_eq_of_relates ends⟩

theorem readAttributes_respacing
    (related : (Fork.respacing space space' after).Relates cursor other)
    (meets : MeetsAmongAttributes place cursor) (ahead : place.ahead = run ++ after) :
    other.readAttributes.1.map (·.reword .unplaced) =
        cursor.readAttributes.1.map (·.reword .unplaced) ∧
      other.readAttributes.2.ahead = cursor.readAttributes.2.ahead := by
  induction meets generalizing other with
  | @gap cursor between =>
      -- What is read depends on the place that is sought first alone.
      have sought := ahead_skipToAttribute_respacing related between ahead
      have related := relates_of_ahead_eq sought
      have sameOn : other.skipToAttribute.isOn isNameCharacter =
          cursor.skipToAttribute.isOn isNameCharacter := Fork.isOn_eq (by decide) related
      cases isOn : cursor.skipToAttribute.isOn isNameCharacter with
      | false =>
          rw [readAttributes_of_end isOn, readAttributes_of_end (sameOn.trans isOn)]
          exact ⟨rfl, sought⟩
      | true =>
          obtain ⟨first, next⟩ := Fork.readAttribute_eq related isOn (precedes_ended _)
          obtain ⟨later, ends⟩ := readAttributes_of_ahead_eq (ahead_eq_of_relates next)
          rw [readAttributes_of_attribute isOn, readAttributes_of_attribute (sameOn.trans isOn),
            List.map_cons, List.map_cons, first, later]
          exact ⟨rfl, ends⟩
  | @beforeValue cursor isOn meets =>
      have atAttribute := Fork.relates_seek Fork.alike_isAttributeOrTagEnd related
        (precedes_respacing space space' ((leadsTo_attributeNameEnd _).trans meets.leadsTo) ahead)
      have isOn' : other.skipToAttribute.isOn isNameCharacter :=
        (Fork.isOn_eq (by decide) atAttribute).trans isOn
      obtain ⟨first, next⟩ := readAttribute_respacing atAttribute isOn meets ahead
      obtain ⟨later, ends⟩ := readAttributes_of_ahead_eq next
      rw [readAttributes_of_attribute isOn, readAttributes_of_attribute isOn', List.map_cons,
        List.map_cons]
      exact ⟨congrArg₂ List.cons first later, ends⟩
  | @later cursor isOn meets ih =>
      have afterFirst := precedes_respacing space space' meets.leadsTo ahead
      have atAttribute := Fork.relates_seek Fork.alike_isAttributeOrTagEnd related
        (afterFirst.of_le (leadsTo_readAttribute _).remaining_le)
      have isOn' : other.skipToAttribute.isOn isNameCharacter :=
        (Fork.isOn_eq (by decide) atAttribute).trans isOn
      obtain ⟨first, next⟩ := Fork.readAttribute_eq atAttribute isOn afterFirst
      obtain ⟨later, ends⟩ := ih next
      rw [readAttributes_of_attribute isOn, readAttributes_of_attribute isOn', List.map_cons,
        List.map_cons]
      exact ⟨congrArg₂ List.cons first later, ends⟩

theorem readOpeningTag_respacing
    (related : (Fork.respacing space space' after).Relates cursor other)
    (meets : cursor.MeetsInOpeningTag place) (ahead : place.ahead = run ++ after) :
    other.readOpeningTag.1.reword .unplaced = cursor.readOpeningTag.1.reword .unplaced ∧
      other.readOpeningTag.2.ahead = cursor.readOpeningTag.2.ahead := by
  have afterName := precedes_respacing space space'
    (MeetsAmongAttributes.leadsTo meets) ahead
  have opened : (Fork.respacing space space' after).Relates (cursor.skip ['<']) (other.skip ['<']) :=
    Fork.relates_skip (by decide) related (afterName.of_le (leadsTo_readName _).remaining_le)
  obtain ⟨name, -, atAttributes⟩ := Fork.readName_eq opened afterName
  obtain ⟨attributes, tagEnd⟩ := readAttributes_respacing atAttributes meets ahead
  have isSelfClosing := Fork.isSelfClosingEndAhead_eq (relates_of_ahead_eq tagEnd)
  refine ⟨?_, skipTagEnd_of_ahead_eq tagEnd⟩
  simp only [readOpeningTag, OpeningTag.reword, Tag.reword, name, isSelfClosing,
    ← Attribute.filterMap_plain?_reword, ← Attribute.filterMap_directive?_reword, attributes]
  rfl

theorem readClosingTag_respacing
    (related : (Fork.respacing space space' after).Relates cursor other)
    (meets : cursor.MeetsInClosingTag place) (ahead : place.ahead = run ++ after) :
    other.readClosingTag.1.reword .unplaced = cursor.readClosingTag.1.reword .unplaced ∧
      other.readClosingTag.2.ahead = cursor.readClosingTag.2.ahead := by
  have afterName := precedes_respacing space space' meets.1 ahead
  have opened : (Fork.respacing space space' after).Relates (cursor.skip closingTagOpener)
      (other.skip closingTagOpener) :=
    Fork.relates_skip (by decide) related (afterName.of_le (leadsTo_readName _).remaining_le)
  obtain ⟨name, -, atEnd⟩ := Fork.readName_eq opened afterName
  have tagEnd : other.closingTagEnd.ahead = cursor.closingTagEnd.ahead :=
    ahead_seek_respacing (fun _ => .isOn (by decide))
      (not_isOn_of_isWhitespace _ (by decide) (by decide)) atEnd meets ahead
  refine ⟨?_, ?_⟩
  · simp only [readClosingTag, ClosingTag.reword, name]
    rfl
  · rw [readClosingTag_snd, readClosingTag_snd, ahead_advance, ahead_advance, tagEnd]

/-- An opening tag is passed alike if the sources fork behind it at white space. -/
theorem relates_skipTagEnd (related : (Fork.respacing space space' after).Relates cursor other)
    (within : (Fork.respacing space space' after).Precedes cursor.skipTagEnd) :
    (Fork.respacing space space' after).Relates cursor.skipTagEnd other.skipTagEnd := by
  unfold skipTagEnd at *
  rw [Fork.isSelfClosingEndAhead_eq related]
  split at within
  · next isSelfClosing =>
      rw [if_pos isSelfClosing, if_pos isSelfClosing]
      exact Fork.relates_advanceBy_length "/>".toList related isSelfClosing within
  · next notSelfClosing =>
      rw [if_neg notSelfClosing, if_neg notSelfClosing]
      have atAngle := within.of_le (leadsTo_advance _).remaining_le
      exact Fork.relates_advance (Fork.relates_seek (.isOn (by decide)) related atAngle) within

theorem readElementStart_respacing
    (related : (Fork.respacing space space' after).Relates cursor other)
    (meets : cursor.MeetsInElementStart place) (ahead : place.ahead = run ++ after) :
    other.readElementStart.1.1.reword .unplaced = cursor.readElementStart.1.1.reword .unplaced ∧
      other.readElementStart.1.2.map (·.reword .unplaced) =
        cursor.readElementStart.1.2.map (·.reword .unplaced) ∧
      other.readElementStart.2.ahead = cursor.readElementStart.2.ahead := by
  cases meets with
  | openingTag meets =>
      obtain ⟨opening, afterTag⟩ := readOpeningTag_respacing related meets ahead
      have legal := cursor.isNameCharacter_of_readOpeningTag
      obtain ⟨sameName, sameKind⟩ := name_rawKind?_eq opening
      unfold readElementStart
      simp only [sameKind, sameName]
      cases cursor.readOpeningTag.1.rawKind? with
      | none => exact ⟨opening, rfl, afterTag⟩
      | some kind =>
          obtain ⟨body, afterBody⟩ := readRawBody_of_ahead_eq kind legal afterTag
          exact ⟨opening, congrArg some body, afterBody⟩
  | @closingTag kind isRaw meets =>
      have atBodyEnd := precedes_respacing space space' meets.leadsTo ahead
      have atTag := atBodyEnd.of_le (leadsTo_bodyEnd _ _ _).remaining_le
      obtain ⟨opening, legal, tagEnd⟩ :=
        Fork.readOpeningTag_eq related (atTag.of_le (leadsTo_skipTagEnd _).remaining_le)
      obtain ⟨sameName, sameKind⟩ := name_rawKind?_eq opening
      have afterTag : (Fork.respacing space space' after).Relates cursor.readOpeningTag.2
          other.readOpeningTag.2 := relates_skipTagEnd tagEnd atTag
      have notCutOff : place.ahead ≠ [] := by simp [ahead, space.1]
      obtain ⟨read, aheadBodyEnd⟩ := meets.leadsTo.exists_ahead_eq
      have isClosing := cursor.readOpeningTag.2.isClosingTagAhead_bodyEnd kind
        cursor.readOpeningTag.1.tag.name.toList (by simp [aheadBodyEnd, notCutOff])
      have inside := Nat.lt_of_le_of_lt ((leadsTo_readName _).trans meets.1).remaining_le
        (remaining_skip_lt isClosing (by decide))
      rw [remaining, ahead] at inside
      obtain ⟨text, reads⟩ :=
        Fork.reads_seekBodyEnd kind 0 none legal (by simp) afterTag (.inr inside)
      obtain ⟨-, afterBody⟩ := readClosingTag_respacing reads.relates meets ahead
      have body : (other.readOpeningTag.2.readRawBody kind
            cursor.readOpeningTag.1.tag.name.toList).1.reword .unplaced =
          (cursor.readOpeningTag.2.readRawBody kind
            cursor.readOpeningTag.1.tag.name.toList).1.reword .unplaced := by
        simp only [readRawBody, RawBody.reword, reads.textSince_eq]
        rfl
      unfold readElementStart
      simp only [sameKind, sameName, isRaw]
      exact ⟨opening, congrArg some body, afterBody⟩

/-- White space in a tag may be other white space: the same tokens are read. -/
theorem unplacedTokens_respacing
    (related : (Fork.respacing space space' after).Relates cursor other)
    (meets : cursor.MeetsInTag place) (ahead : place.ahead = run ++ after) :
    other.unplacedTokens = cursor.unplacedTokens := by
  have atTag := precedes_respacing space space' meets.leadsTo_readText ahead
  obtain ⟨pieces, related⟩ := Fork.readTextPieces_eq related atTag
  rw [unplacedTokens_eq, unplacedTokens_eq, pieces, Fork.textEnd_eq related]
  refine congrArg (_ :: ·) ?_
  have sameOpening := Fork.isOpeningTagAhead_eq related
  have sameClosing := Fork.isClosingTagAhead_eq related
  unfold unplacedTokensAtTag tokensAtTag
  rw [sameOpening, sameClosing]
  cases meets with
  | opening isOpening meets =>
      have isOpening : cursor.readTextPieces.2.isOpeningTagAhead := isOpening
      obtain ⟨opening, body, next⟩ := readElementStart_respacing related meets ahead
      have later := unplacedTokens_of_ahead_eq next
      unfold unplacedTokens at later
      rw [if_pos isOpening, if_pos isOpening, List.map_cons, List.map_cons, later]
      exact congrArg (· :: _) (congrArg₂ Token.opening opening body)
  | closing isClosing meets =>
      have isClosing : cursor.readTextPieces.2.isClosingTagAhead := isClosing
      have notOpening : ¬ cursor.readTextPieces.2.isOpeningTagAhead := by
        simp [not_isOpeningTagAhead isClosing]
      obtain ⟨closing, next⟩ := readClosingTag_respacing related meets ahead
      have later := unplacedTokens_of_ahead_eq next
      unfold unplacedTokens at later
      rw [if_neg notOpening, if_neg notOpening, if_pos isClosing, if_pos isClosing, List.map_cons,
        List.map_cons, later]
      exact congrArg (· :: _) (congrArg Token.closing closing)

end Cursor

end TemplateMarkup
