import TemplateMarkup.Proofs.Canonical.Tokens
import TemplateMarkup.Proofs.Markup.Fork
import TemplateMarkup.Proofs.Markup.Passage

/-!
# Whole tags

A tag, a comment or a raw body is whole unless the end of the input cuts it off.  What a whole one says
does not depend on what follows it: it ends with a `>`, so two sources that share it fork after this
character at the earliest, and its reader stays before the fork.

Nor does what follows a place depend on what was read before it.  The tokens ahead, their positions
apart, are determined by the text ahead.
-/

namespace TemplateMarkup

open CharacterClass

namespace Cursor

section SameAhead

variable {cursor other : Cursor}

/-- Two sources with the same text ahead fork at its end. -/
theorem relates_of_ahead_eq (sameAhead : other.ahead = cursor.ahead) :
    Fork.Relates ⟨[], [], .ended⟩ cursor other :=
  ⟨cursor.ahead, (List.append_nil _).symm, sameAhead.trans (List.append_nil _).symm⟩

theorem ahead_eq_of_relates (related : Fork.Relates ⟨[], [], .ended⟩ cursor other) :
    other.ahead = cursor.ahead := by
  obtain ⟨text, ahead, ahead'⟩ := related
  exact ahead'.trans ahead.symm

theorem precedes_ended (cursor : Cursor) : Fork.Precedes ⟨[], [], .ended⟩ cursor :=
  Nat.zero_le _

theorem skipTagEnd_of_ahead_eq (sameAhead : other.ahead = cursor.ahead) :
    other.skipTagEnd.ahead = cursor.skipTagEnd.ahead := by
  have related := relates_of_ahead_eq sameAhead
  unfold skipTagEnd
  rw [Fork.isSelfClosingEndAhead_eq related]
  split
  · rw [ahead_advanceBy, ahead_advanceBy, sameAhead]
  · have onAngle : Fork.Alike ⟨[], [], .ended⟩ fun place => place.isOn (· == '>') :=
      .isOn (by decide)
    have sought := ahead_eq_of_relates (Fork.relates_seek onAngle related (precedes_ended _))
    rw [skipPast, skipPast, ahead_advance, ahead_advance, sought]

theorem readOpeningTag_of_ahead_eq (sameAhead : other.ahead = cursor.ahead) :
    other.readOpeningTag.1.reword .unplaced = cursor.readOpeningTag.1.reword .unplaced ∧
      (∀ character ∈ cursor.readOpeningTag.1.tag.name.toList, isNameCharacter character) ∧
      other.readOpeningTag.2.ahead = cursor.readOpeningTag.2.ahead := by
  obtain ⟨opening, legal, tagEnd⟩ :=
    Fork.readOpeningTag_eq (relates_of_ahead_eq sameAhead) (precedes_ended _)
  exact ⟨opening, legal, skipTagEnd_of_ahead_eq (ahead_eq_of_relates tagEnd)⟩

theorem isNameCharacter_of_readOpeningTag (cursor : Cursor) :
    ∀ character ∈ cursor.readOpeningTag.1.tag.name.toList, isNameCharacter character :=
  (readOpeningTag_of_ahead_eq (Eq.refl cursor.ahead)).2.1

theorem readClosingTag_of_ahead_eq (sameAhead : other.ahead = cursor.ahead) :
    other.readClosingTag.1.reword .unplaced = cursor.readClosingTag.1.reword .unplaced ∧
      other.readClosingTag.2.ahead = cursor.readClosingTag.2.ahead := by
  obtain ⟨closing, tagEnd⟩ :=
    Fork.readClosingTag_eq (relates_of_ahead_eq sameAhead) (precedes_ended _)
  refine ⟨closing, ?_⟩
  rw [readClosingTag_snd, readClosingTag_snd, ahead_advance, ahead_advance,
    ahead_eq_of_relates tagEnd]

theorem readRawBody_of_ahead_eq (kind : RawKind) {name : List Char}
    (legal : ∀ character ∈ name, isNameCharacter character)
    (sameAhead : other.ahead = cursor.ahead) :
    (other.readRawBody kind name).1.reword .unplaced =
        (cursor.readRawBody kind name).1.reword .unplaced ∧
      (other.readRawBody kind name).2.ahead = (cursor.readRawBody kind name).2.ahead := by
  obtain ⟨text, reads⟩ :=
    Fork.reads_seekBodyEnd kind 0 none legal (by simp) (relates_of_ahead_eq sameAhead) (.inl rfl)
  refine ⟨?_, (readClosingTag_of_ahead_eq (ahead_eq_of_relates reads.relates)).2⟩
  simp only [readRawBody, RawBody.reword, reads.textSince_eq]
  rfl

/-- The name and the kind of an opening tag can be seen without its positions. -/
theorem name_rawKind?_eq {opening opening' : OpeningTag}
    (same : opening'.reword .unplaced = opening.reword .unplaced) :
    opening'.tag.name = opening.tag.name ∧ opening'.rawKind? = opening.rawKind? := by
  refine ⟨congrArg (·.tag.name) same, ?_⟩
  rw [← OpeningTag.rawKind?_reword .unplaced, same, OpeningTag.rawKind?_reword]

theorem readElementStart_of_ahead_eq (sameAhead : other.ahead = cursor.ahead) :
    other.readElementStart.1.1.reword .unplaced = cursor.readElementStart.1.1.reword .unplaced ∧
      other.readElementStart.1.2.map (·.reword .unplaced) =
        cursor.readElementStart.1.2.map (·.reword .unplaced) ∧
      other.readElementStart.2.ahead = cursor.readElementStart.2.ahead := by
  obtain ⟨opening, legal, afterTag⟩ := readOpeningTag_of_ahead_eq sameAhead
  obtain ⟨sameName, sameKind⟩ := name_rawKind?_eq opening
  unfold readElementStart
  simp only [sameKind, sameName]
  cases cursor.readOpeningTag.1.rawKind? with
  | none => exact ⟨opening, rfl, afterTag⟩
  | some kind =>
      obtain ⟨body, afterBody⟩ := readRawBody_of_ahead_eq kind legal afterTag
      exact ⟨opening, congrArg some body, afterBody⟩

theorem not_isOpeningTagAhead (isClosing : cursor.isClosingTagAhead) :
    cursor.isOpeningTagAhead = false := by
  obtain ⟨rest, ahead⟩ := List.isPrefixOf_iff_prefix.mp isClosing
  exact isOpeningTagAhead_of_ahead ahead.symm

theorem readTextPieces_of_ahead_eq (sameAhead : other.ahead = cursor.ahead) :
    other.readTextPieces.1 = cursor.readTextPieces.1 ∧
      other.readTextPieces.2.ahead = cursor.readTextPieces.2.ahead := by
  obtain ⟨pieces, ends⟩ :=
    Fork.readTextPieces_eq (relates_of_ahead_eq sameAhead) (precedes_ended _)
  exact ⟨pieces, ahead_eq_of_relates ends⟩

/-- The tokens at a tag depend on the text ahead alone, if those after the tag do. -/
theorem unplacedTokensAtTag_of_later
    (later : ∀ {place place' : Cursor}, place.remaining < cursor.remaining →
      place'.ahead = place.ahead → place'.unplacedTokens = place.unplacedTokens)
    (sameAhead : other.ahead = cursor.ahead) :
    other.unplacedTokensAtTag = cursor.unplacedTokensAtTag := by
  have related := relates_of_ahead_eq sameAhead
  unfold unplacedTokens at later
  unfold unplacedTokensAtTag tokensAtTag
  rw [Fork.isOpeningTagAhead_eq related, Fork.isClosingTagAhead_eq related]
  split
  · next isOpening =>
      obtain ⟨opening, body, next⟩ := readElementStart_of_ahead_eq sameAhead
      rw [List.map_cons, List.map_cons, later (remaining_readElementStart_lt isOpening) next]
      exact congrArg (· :: _) (congrArg₂ Token.opening opening body)
  · split
    · next isClosing =>
        obtain ⟨closing, next⟩ := readClosingTag_of_ahead_eq sameAhead
        rw [List.map_cons, List.map_cons, later (remaining_readClosingTag_lt isClosing) next]
        exact congrArg (· :: _) (congrArg Token.closing closing)
    · rfl

theorem unplacedTokens_eq (cursor : Cursor) :
    cursor.unplacedTokens =
      textToken cursor.readTextPieces.1 cursor.readTextPieces.2.textEnd ::
        cursor.readTextPieces.2.unplacedTokensAtTag := by
  rw [unplacedTokens, tokens_eq]
  rfl

/-- The tokens ahead, their positions and spans apart, depend on the text ahead alone. -/
theorem unplacedTokens_of_ahead_eq (sameAhead : other.ahead = cursor.ahead) :
    other.unplacedTokens = cursor.unplacedTokens := by
  induction size : cursor.remaining using Nat.strongRecOn generalizing cursor other with
  | ind count ih =>
      obtain ⟨pieces, ends⟩ := readTextPieces_of_ahead_eq sameAhead
      have atTag := unplacedTokensAtTag_of_later (fun {place place'} progress same => by
        have shorter := Nat.lt_of_lt_of_le progress (remaining_readTextPieces_le cursor)
        exact ih _ (size ▸ shorter) same rfl) ends
      rw [unplacedTokens_eq, unplacedTokens_eq, pieces, atTag,
        Fork.textEnd_eq (relates_of_ahead_eq ends)]

theorem unplacedTokensAtTag_of_ahead_eq (sameAhead : other.ahead = cursor.ahead) :
    other.unplacedTokensAtTag = cursor.unplacedTokensAtTag :=
  unplacedTokensAtTag_of_later (fun _ => unplacedTokens_of_ahead_eq) sameAhead

end SameAhead

/-- The opening tag ahead is not cut off by the end of the input. -/
def OpeningTagIsWhole (cursor : Cursor) : Prop :=
  cursor.openingTagEnd.ahead ≠ []

instance (cursor : Cursor) : Decidable cursor.OpeningTagIsWhole :=
  inferInstanceAs (Decidable (_ ≠ _))

def ClosingTagIsWhole (cursor : Cursor) : Prop :=
  cursor.closingTagEnd.ahead ≠ []

instance (cursor : Cursor) : Decidable cursor.ClosingTagIsWhole :=
  inferInstanceAs (Decidable (_ ≠ _))

/-- Neither the raw body ahead nor its closing tag is cut off by the end of the input. -/
def RawBodyIsWhole (cursor : Cursor) (kind : RawKind) (name : List Char) : Prop :=
  (cursor.bodyEnd kind name).ahead ≠ [] ∧ (cursor.bodyEnd kind name).ClosingTagIsWhole

instance (cursor : Cursor) (kind : RawKind) (name : List Char) :
    Decidable (cursor.RawBodyIsWhole kind name) :=
  inferInstanceAs (Decidable (_ ∧ _))

/-- Neither the opening tag ahead nor its raw body, if it has one, is cut off. -/
def ElementStartIsWhole (cursor : Cursor) : Prop :=
  cursor.OpeningTagIsWhole ∧ ∀ kind ∈ cursor.readOpeningTag.1.rawKind?,
    cursor.readOpeningTag.2.RawBodyIsWhole kind cursor.readOpeningTag.1.tag.name.toList

instance (cursor : Cursor) : Decidable cursor.ElementStartIsWhole :=
  inferInstanceAs (Decidable (_ ∧ _))

/-- The place of the `-->` of a comment. -/
def commentEnd (cursor : Cursor) : Cursor :=
  (cursor.skip commentOpener).seek (·.startsWith commentCloser)

def CommentIsWhole (cursor : Cursor) : Prop :=
  cursor.commentEnd.ahead ≠ []

/-- Both cursors have the same text ahead of them before the two rests. -/
def Shares (rest rest' : List Char) (cursor other : Cursor) : Prop :=
  ∃ text, cursor.ahead = text ++ rest ∧ other.ahead = text ++ rest'

section Whole

variable {rest rest' : List Char} {cursor other place : Cursor}

/-- What is shared up to a `>` and further forks there. -/
theorem Shares.exists_fork (shares : Shares rest rest' cursor other) {after : List Char}
    (leads : ∃ text, cursor.ahead = text ++ '>' :: after) (within : rest.length ≤ after.length) :
    ∃ left, after = left ++ rest ∧
      Fork.Relates ⟨'>' :: (left ++ rest), '>' :: (left ++ rest'), .angle _ _⟩ cursor other := by
  obtain ⟨text, ahead, ahead'⟩ := shares
  obtain ⟨read, aheadAngle⟩ := leads
  have whole : (read ++ ['>']) ++ after = text ++ rest := by
    rw [List.append_assoc, List.singleton_append, ← aheadAngle, ahead]
  have inside : (read ++ ['>']).length ≤ text.length := by
    have lengths := congrArg List.length whole
    simp only [List.length_append] at lengths ⊢
    omega
  obtain ⟨left, rfl⟩ := List.prefix_of_prefix_length_le (List.prefix_append _ after)
    (whole ▸ List.prefix_append text rest) inside
  rw [List.append_assoc _ left] at whole
  refine ⟨left, List.append_cancel_left whole, read, ?_, ?_⟩
  · rw [ahead, List.append_assoc, List.append_assoc, List.singleton_append]
  · rw [ahead', List.append_assoc, List.append_assoc, List.singleton_append]

theorem shares_of_fork (tail : List Char) {left : List Char}
    (related : Fork.Relates ⟨'>' :: (left ++ rest), '>' :: (left ++ rest'), .angle _ _⟩ cursor other)
    (ahead : cursor.ahead = tail ++ '>' :: (left ++ rest)) :
    other.ahead = tail ++ '>' :: (left ++ rest') := by
  obtain ⟨text, aheadText, aheadText'⟩ := related
  have same : text = tail := List.append_cancel_right (aheadText.symm.trans ahead)
  rw [aheadText', same]

/-- The end of an opening tag, `>` or `/>`, up to its last character. -/
def IsBeforeAngle (slash : List Char) : Prop :=
  slash = [] ∨ slash = ['/']

theorem ahead_skipTagEnd {slash after : List Char} (isEnd : IsBeforeAngle slash)
    (ahead : place.ahead = slash ++ '>' :: after) : place.skipTagEnd.ahead = after := by
  rcases isEnd with rfl | rfl
  · have ahead : place.ahead = '>' :: after := ahead
    have notSelfClosing : place.isSelfClosingEndAhead = false :=
      isSelfClosingEndAhead_eq_false ahead (by simp)
    rw [skipTagEnd, if_neg (by simp [notSelfClosing]), skipPast_eq ahead,
      advance_of_ahead_cons ahead]
  · rw [skipTagEnd, if_pos (isSelfClosingEndAhead_of_ahead ahead), ahead_advanceBy, ahead]
    rfl

theorem isTagEndAhead_readAttributes (cursor : Cursor) :
    cursor.readAttributes.2.ahead = [] ∨ cursor.readAttributes.2.isTagEndAhead := by
  fun_induction readAttributes cursor with
  | case1 cursor place isOn first later ih => exact ih
  | case2 cursor place notOn =>
      rcases ahead_seek_eq_nil_or_halts cursor _ with atEnd | halted
      · exact .inl atEnd
      · rcases Bool.or_eq_true _ _ ▸ halted with isOn | isEnd
        · exact absurd isOn notOn
        · exact .inr isEnd

theorem ahead_openingTagEnd (whole : cursor.OpeningTagIsWhole) :
    ∃ slash, IsBeforeAngle slash ∧
      cursor.openingTagEnd.ahead = slash ++ '>' :: cursor.readOpeningTag.2.ahead := by
  have tagEnd : cursor.openingTagEnd.isTagEndAhead :=
    (isTagEndAhead_readAttributes _).resolve_left whole
  obtain ⟨slash, after, isEnd, ahead⟩ : ∃ slash after, IsBeforeAngle slash ∧
      cursor.openingTagEnd.ahead = slash ++ '>' :: after := by
    rcases Bool.or_eq_true _ _ ▸ tagEnd with onAngle | selfClosing
    · cases ahead : cursor.openingTagEnd.ahead with
      | nil => exact absurd ahead whole
      | cons character after =>
          rw [isOn_of_ahead_cons ahead] at onAngle
          obtain rfl : character = '>' := beq_iff_eq.mp onAngle
          exact ⟨[], after, .inl rfl, rfl⟩
    · obtain ⟨after, ahead⟩ := List.isPrefixOf_iff_prefix.mp selfClosing
      exact ⟨['/'], after, .inr rfl, ahead.symm⟩
  rw [readOpeningTag_snd, ahead_skipTagEnd isEnd ahead]
  exact ⟨slash, isEnd, ahead⟩

theorem ahead_closingTagEnd (whole : cursor.ClosingTagIsWhole) :
    cursor.closingTagEnd.ahead = '>' :: cursor.readClosingTag.2.ahead := by
  have onAngle := (ahead_seek_eq_nil_or_halts (cursor.skip closingTagOpener).readName.2
    fun place => place.isOn (· == '>')).resolve_left whole
  have onAngle : cursor.closingTagEnd.isOn (· == '>') := onAngle
  rw [readClosingTag_snd]
  cases ahead : cursor.closingTagEnd.ahead with
  | nil => exact absurd ahead whole
  | cons character after =>
      rw [isOn_of_ahead_cons ahead] at onAngle
      rw [beq_iff_eq.mp onAngle, advance_of_ahead_cons ahead]

theorem leadsTo_openingTagEnd (cursor : Cursor) : LeadsTo cursor cursor.openingTagEnd :=
  ((leadsTo_skip cursor _).trans (leadsTo_readName _)).trans (leadsTo_readAttributes _)

theorem leadsTo_closingTagEnd (cursor : Cursor) : LeadsTo cursor cursor.closingTagEnd :=
  ((leadsTo_skip cursor _).trans (leadsTo_readName _)).trans (leadsTo_seek _ _)

/-- A whole opening tag is read alike before any rests. -/
theorem readOpeningTag_of_shares (whole : cursor.OpeningTagIsWhole)
    (shares : Shares rest rest' cursor other)
    (within : rest.length ≤ cursor.readOpeningTag.2.remaining) :
    other.OpeningTagIsWhole ∧
      other.readOpeningTag.1.reword .unplaced = cursor.readOpeningTag.1.reword .unplaced ∧
      (∀ character ∈ cursor.readOpeningTag.1.tag.name.toList, isNameCharacter character) ∧
      Shares rest rest' cursor.readOpeningTag.2 other.readOpeningTag.2 := by
  obtain ⟨slash, isEnd, tagEnd⟩ := ahead_openingTagEnd whole
  obtain ⟨text, ahead⟩ := (leadsTo_openingTagEnd cursor).exists_ahead_eq
  rw [tagEnd, ← List.append_assoc] at ahead
  obtain ⟨left, after, related⟩ := shares.exists_fork ⟨_, ahead⟩ within
  rw [after] at tagEnd
  have atEnd : Fork.Precedes ⟨'>' :: (left ++ rest), '>' :: (left ++ rest'), .angle _ _⟩
      cursor.openingTagEnd := by
    simp only [Fork.Precedes, remaining, tagEnd, List.length_append, List.length_cons]
    omega
  obtain ⟨opening, legal, ends⟩ := Fork.readOpeningTag_eq related atEnd
  have tagEnd' := shares_of_fork _ ends tagEnd
  refine ⟨?_, opening, legal, left, after, ?_⟩
  · simp [OpeningTagIsWhole, tagEnd']
  · rw [readOpeningTag_snd, ahead_skipTagEnd isEnd tagEnd']

theorem readClosingTag_of_shares (whole : cursor.ClosingTagIsWhole)
    (shares : Shares rest rest' cursor other)
    (within : rest.length ≤ cursor.readClosingTag.2.remaining) :
    other.ClosingTagIsWhole ∧
      other.readClosingTag.1.reword .unplaced = cursor.readClosingTag.1.reword .unplaced ∧
      Shares rest rest' cursor.readClosingTag.2 other.readClosingTag.2 := by
  have tagEnd := ahead_closingTagEnd whole
  obtain ⟨text, ahead⟩ := (leadsTo_closingTagEnd cursor).exists_ahead_eq
  rw [tagEnd] at ahead
  obtain ⟨left, after, related⟩ := shares.exists_fork ⟨_, ahead⟩ within
  rw [after] at tagEnd
  have atEnd : Fork.Precedes ⟨'>' :: (left ++ rest), '>' :: (left ++ rest'), .angle _ _⟩
      cursor.closingTagEnd := by
    simp [Fork.Precedes, remaining, tagEnd]
  obtain ⟨closing, ends⟩ := Fork.readClosingTag_eq related atEnd
  have tagEnd' : other.closingTagEnd.ahead = '>' :: (left ++ rest') :=
    shares_of_fork [] ends tagEnd
  refine ⟨?_, closing, left, after, ?_⟩
  · simp [ClosingTagIsWhole, tagEnd']
  · rw [readClosingTag_snd, advance_of_ahead_cons tagEnd']

/-- A raw body ends at a closing tag of its name, or at the end of the input. -/
theorem ahead_seekBodyEnd (kind : RawKind) (name : List Char) (depth : Nat) (quote : Option Char)
    (cursor : Cursor) :
    (seekBodyEnd kind name cursor.ahead depth quote cursor).ahead = [] ∨
      (seekBodyEnd kind name cursor.ahead depth quote cursor).isNamedTagAhead
        closingTagOpener name := by
  induction pending : cursor.ahead generalizing cursor depth quote with
  | nil => exact .inl pending
  | cons character rest ih =>
      rw [← pending, seekBodyEnd_of_ahead_cons pending]
      cases step : bodyStep kind name depth quote character cursor with
      | none =>
          refine .inr ?_
          unfold bodyStep at step
          cases quote with
          | some => cases step
          | none =>
              by_contra notEnd
              simp only [notEnd, if_false] at step
              split at step
              · cases step
              · split at step <;> cases step
      | some state =>
          have next : cursor.advance.ahead = rest := by rw [advance_of_ahead_cons pending]
          simp only [next]
          exact ih state.1 state.2 cursor.advance next

theorem leadsTo_bodyEnd (cursor : Cursor) (kind : RawKind) (name : List Char) :
    LeadsTo cursor (cursor.bodyEnd kind name) :=
  leadsTo_seekBodyEnd cursor kind name _ _ _

theorem remaining_closingTagEnd_lt (isAhead : cursor.isClosingTagAhead) :
    cursor.closingTagEnd.remaining < cursor.remaining :=
  Nat.lt_of_le_of_lt ((leadsTo_readName _).trans (leadsTo_seek _ _)).remaining_le
    (remaining_skip_lt isAhead (by decide))

theorem isClosingTagAhead_bodyEnd (cursor : Cursor) (kind : RawKind) (name : List Char)
    (whole : (cursor.bodyEnd kind name).ahead ≠ []) :
    (cursor.bodyEnd kind name).isClosingTagAhead := by
  have named := (ahead_seekBodyEnd kind name 0 none cursor).resolve_left whole
  have startsWith := (Bool.and_eq_true _ _ ▸ named).1
  rw [isClosingTagAhead, Cursor.startsWith, List.isPrefixOf_iff_prefix]
  exact (List.prefix_append _ name).trans (List.isPrefixOf_iff_prefix.mp startsWith)

theorem readRawBody_of_shares {kind : RawKind} {name : List Char}
    (legal : ∀ character ∈ name, isNameCharacter character)
    (whole : cursor.RawBodyIsWhole kind name) (shares : Shares rest rest' cursor other)
    (within : rest.length ≤ (cursor.readRawBody kind name).2.remaining) :
    other.RawBodyIsWhole kind name ∧
      (other.readRawBody kind name).1.reword .unplaced =
        (cursor.readRawBody kind name).1.reword .unplaced ∧
      Shares rest rest' (cursor.readRawBody kind name).2 (other.readRawBody kind name).2 := by
  obtain ⟨notCutOff, wholeTag⟩ := whole
  have tagEnd := ahead_closingTagEnd wholeTag
  obtain ⟨text, ahead⟩ :=
    ((leadsTo_bodyEnd cursor kind name).trans (leadsTo_closingTagEnd _)).exists_ahead_eq
  rw [tagEnd] at ahead
  obtain ⟨left, after, related⟩ := shares.exists_fork ⟨_, ahead⟩ within
  have after : (cursor.bodyEnd kind name).readClosingTag.2.ahead = left ++ rest := after
  rw [after] at tagEnd
  have atEnd : (cursor.bodyEnd kind name).closingTagEnd.remaining = (left ++ rest).length + 1 :=
    congrArg List.length tagEnd
  -- The closing tag starts before the `>` at which the sources fork.
  have inside := remaining_closingTagEnd_lt (cursor.isClosingTagAhead_bodyEnd kind name notCutOff)
  rw [atEnd] at inside
  obtain ⟨read, reads⟩ :=
    Fork.reads_seekBodyEnd kind 0 none legal (by simp) related (.inr inside)
  obtain ⟨-, ends⟩ := Fork.readClosingTag_eq reads.relates (Nat.le_of_eq atEnd.symm)
  have tagEnd' : (other.bodyEnd kind name).closingTagEnd.ahead = '>' :: (left ++ rest') :=
    shares_of_fork [] ends tagEnd
  have wholeTag' : (other.bodyEnd kind name).ClosingTagIsWhole := by
    simp [ClosingTagIsWhole, tagEnd']
  refine ⟨⟨?_, wholeTag'⟩, ?_, left, after, ?_⟩
  · intro cutOff
    exact notCutOff (reads.relates.ahead_eq_nil_iff.mp cutOff)
  · simp only [readRawBody, RawBody.reword, reads.textSince_eq]
    rfl
  · rw [readRawBody_snd, readClosingTag_snd, advance_of_ahead_cons tagEnd']

theorem readElementStart_of_shares (whole : cursor.ElementStartIsWhole)
    (shares : Shares rest rest' cursor other)
    (within : rest.length ≤ cursor.readElementStart.2.remaining) :
    other.ElementStartIsWhole ∧
      other.readElementStart.1.1.reword .unplaced = cursor.readElementStart.1.1.reword .unplaced ∧
      other.readElementStart.1.2.map (·.reword .unplaced) =
        cursor.readElementStart.1.2.map (·.reword .unplaced) ∧
      Shares rest rest' cursor.readElementStart.2 other.readElementStart.2 := by
  obtain ⟨wholeTag, wholeBody⟩ := whole
  have bodyLeads : cursor.readElementStart.2.remaining ≤ cursor.readOpeningTag.2.remaining := by
    unfold readElementStart
    simp only
    split
    · exact Nat.le_refl _
    · exact (leadsTo_readRawBody _ _ _).remaining_le
  obtain ⟨wholeTag', opening, legal, afterTag⟩ :=
    readOpeningTag_of_shares wholeTag shares (Nat.le_trans within bodyLeads)
  obtain ⟨sameName, sameKind⟩ := name_rawKind?_eq opening
  unfold ElementStartIsWhole readElementStart at *
  simp only [sameKind, sameName] at within ⊢
  cases isKind : cursor.readOpeningTag.1.rawKind? with
  | none => exact ⟨⟨wholeTag', nofun⟩, opening, rfl, afterTag⟩
  | some kind =>
      rw [isKind] at within
      obtain ⟨wholeBody', body, afterBody⟩ :=
        readRawBody_of_shares legal (wholeBody kind isKind) afterTag within
      refine ⟨⟨wholeTag', ?_⟩, opening, congrArg some body, afterBody⟩
      rintro other ⟨⟩
      exact wholeBody'

theorem leadsTo_commentEnd (cursor : Cursor) : LeadsTo cursor cursor.commentEnd :=
  (leadsTo_skip cursor _).trans (leadsTo_seek _ _)

theorem ahead_skipComment {after : List Char} (ahead : cursor.commentEnd.ahead = commentCloser ++ after) :
    cursor.skipComment.ahead = after := by
  show (cursor.commentEnd.skip commentCloser).ahead = after
  rw [skip, if_pos (startsWith_of_ahead ahead), ahead_advanceBy, ahead, List.drop_left]

theorem ahead_commentEnd (whole : cursor.CommentIsWhole) :
    cursor.commentEnd.ahead = commentCloser ++ cursor.skipComment.ahead := by
  have atCloser : cursor.commentEnd.startsWith commentCloser :=
    (ahead_seek_eq_nil_or_halts _ _).resolve_left whole
  obtain ⟨after, ahead⟩ := List.isPrefixOf_iff_prefix.mp atCloser
  rw [ahead_skipComment ahead.symm, ahead]

/-- A whole comment is passed over before any rests. -/
theorem skipComment_of_shares (isComment : cursor.isCommentAhead) (whole : cursor.CommentIsWhole)
    (shares : Shares rest rest' cursor other) (within : rest.length ≤ cursor.skipComment.remaining) :
    other.isCommentAhead ∧ other.CommentIsWhole ∧
      Shares rest rest' cursor.skipComment other.skipComment := by
  have closer := ahead_commentEnd whole
  obtain ⟨text, ahead⟩ := (leadsTo_commentEnd cursor).exists_ahead_eq
  have upToAngle : cursor.ahead = (text ++ ['-', '-']) ++ '>' :: cursor.skipComment.ahead := by
    rw [ahead, closer, List.append_assoc]
    rfl
  obtain ⟨left, after, related⟩ := shares.exists_fork ⟨_, upToAngle⟩ within
  rw [after] at closer
  have atEnd : Fork.Precedes ⟨'>' :: (left ++ rest), '>' :: (left ++ rest'), .angle _ _⟩
      cursor.commentEnd := by
    have size : commentCloser.length = 3 := by decide
    simp only [Fork.Precedes, remaining, closer, size, List.length_append, List.length_cons]
    omega
  have atOpener := atEnd.of_le (remaining_seek_le _ _)
  have opened : Fork.Relates _ (cursor.skip commentOpener) (other.skip commentOpener) :=
    Fork.relates_skip (by decide) related atOpener
  have ends : Fork.Relates _ cursor.commentEnd other.commentEnd :=
    Fork.relates_seek (.startsWith (by decide)) opened atEnd
  have closer' : other.commentEnd.ahead = commentCloser ++ (left ++ rest') :=
    shares_of_fork ['-', '-'] ends closer
  refine ⟨(Fork.isCommentAhead_eq related).trans isComment, ?_, left, after,
    ahead_skipComment closer'⟩
  simp [CommentIsWhole, closer', commentCloser]

end Whole

end Cursor

end TemplateMarkup
