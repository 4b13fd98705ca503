import TemplateMarkup.Proofs.Markup.Literals

/-!
# Bodies with inner elements of the same name

The body of a raw element ends at the closing tag that matches its opening tag.  Which one that is can
be told from the markup of the body: the readers of texts, comments and tags find the tags of the name,
and an inner element is over at its own closing tag, or at once if it closes itself.

The reader of raw bodies does not read tags.  It looks for their beginnings and counts, and it counts
a tag that closes itself as one that is still to be closed.  So it finds the matching closing tag
exactly if no tag of the name closes itself inside the body.
-/

namespace TemplateMarkup

open CharacterClass

/-- A tag of a given name, as far as pairing is concerned. -/
inductive TagMark where
  | opening
  | selfClosing
  | closing
  deriving DecidableEq

namespace TagMark

/-- How many elements are open after some tags, if so many were open before them.  A tag that closes
itself opens nothing, and there must be something open for a closing tag. -/
def openAfter? : Nat → List TagMark → Option Nat
  | depth, [] => some depth
  | depth, opening :: rest => openAfter? (depth + 1) rest
  | depth, selfClosing :: rest => openAfter? depth rest
  | 0, closing :: _ => none
  | depth + 1, closing :: rest => openAfter? depth rest

/-- Every opening tag has its closing tag. -/
def AreBalanced (marks : List TagMark) : Prop :=
  openAfter? 0 marks = some 0

instance (marks : List TagMark) : Decidable (AreBalanced marks) :=
  inferInstanceAs (Decidable (_ = _))

end TagMark

/-- What tags start with. -/
def tagOpeners : List (List Char) := [['<'], Cursor.closingTagOpener]

/-- Neither `<` nor `</` stands directly before the name in the text. -/
def Avoids (name text : List Char) : Prop :=
  ∀ opener ∈ tagOpeners, ¬ opener ++ name <:+: text

instance (name text : List Char) : Decidable (Avoids name text) :=
  List.decidableBAll _ tagOpeners

/-- What stands after the name in a tag that has nothing but white space and attributes in it. -/
def CharacterClass.endsTagName (character : Char) : Bool :=
  isWhitespace character || character == '>' || character == '/'

namespace Cursor

def openingMarks (name : List Char) (cursor : Cursor) : List TagMark :=
  if cursor.readOpeningTag.1.tag.name = String.ofList name then
    [if cursor.readOpeningTag.1.isSelfClosing then .selfClosing else .opening]
  else []

def closingMarks (name : List Char) (cursor : Cursor) : List TagMark :=
  if cursor.readClosingTag.1.name = String.ofList name then [.closing] else []

/-- Where reading goes on after an opening tag.  That is behind the raw body, at its closing tag, if
the element has one. -/
def contentStart (cursor : Cursor) : Cursor :=
  match cursor.readOpeningTag.1.rawKind? with
  | none => cursor.readOpeningTag.2
  | some kind => cursor.readOpeningTag.2.bodyEnd kind cursor.readOpeningTag.1.tag.name.toList

/-- The readers of the markup go from one place to another, over texts, comments and tags, and meet
some tags of the name.  No other beginning of such a tag stands on the way: not in a comment, not
inside of a tag, and not in the raw body of an inner element. -/
inductive Crosses (name : List Char) : List TagMark → Cursor → Cursor → Prop where
  | done (cursor : Cursor) : Crosses name [] cursor cursor
  | character {character : Char} {rest : List Char} {marks : List TagMark} {start stop : Cursor}
      (ahead : start.ahead = character :: rest) (isText : start.endsTextPiece = false)
      (later : Crosses name marks start.advance stop) : Crosses name marks start stop
  | comment {marks : List TagMark} {start stop : Cursor} (isAhead : start.isCommentAhead)
      (avoids : Avoids name (start.skipComment.textSince start.offset))
      (later : Crosses name marks start.skipComment stop) : Crosses name marks start stop
  | opening {marks : List TagMark} {start stop : Cursor} (isAhead : start.isOpeningTagAhead)
      (isTidy : (start.skip ['<']).readName.2.isOn endsTagName)
      (avoids : Avoids name (start.readOpeningTag.2.textSince start.advance.offset))
      (bodyAvoids : Avoids name
        (start.contentStart.textSince start.readOpeningTag.2.offset ++ ['<']))
      (later : Crosses name marks start.contentStart stop) :
      Crosses name (start.openingMarks name ++ marks) start stop
  | closing {marks : List TagMark} {start stop : Cursor} (isAhead : start.isClosingTagAhead)
      (isTidy : (start.skip closingTagOpener).readName.2.isOn endsTagName)
      (avoids : Avoids name (start.readClosingTag.2.textSince start.advance.offset))
      (later : Crosses name marks start.readClosingTag.2 stop) :
      Crosses name (start.closingMarks name ++ marks) start stop

variable {name text body rest opener : List Char} {marks : List TagMark} {depth : Nat}
variable {cursor start stop place : Cursor}

/-- The reader of raw bodies sees no tag of the name ahead. -/
def StartsNoTag (name : List Char) (place : Cursor) : Prop :=
  ∀ opener ∈ tagOpeners, place.isNamedTagAhead opener name = false

theorem isNamedTagAhead_eq_false (notAhead : ¬ opener ++ name <+: place.ahead) :
    place.isNamedTagAhead opener name = false := by
  have notStarting : place.startsWith (opener ++ name) = false :=
    Bool.eq_false_iff.mpr (mt List.isPrefixOf_iff_prefix.mp notAhead)
  rw [isNamedTagAhead, notStarting, Bool.false_and]

/-- A text that ends a comment or a tag is in nobody's way: what starts in it would have to end in it. -/
theorem startsNoTag_of_avoids (legal : ∀ character ∈ name, isNameCharacter character)
    (avoids : Avoids name text) (closed : text.getLast? = some '>') (passes : Passes text start stop)
    {read : List Char} {character : Char} (split : text = read ++ character :: rest)
    (passed : Passes read start place) : StartsNoTag name place := by
  intro opener isOpener
  refine isNamedTagAhead_eq_false fun isAhead => ?_
  have later : place.ahead = (character :: rest) ++ stop.ahead := passes.ahead_of_split split passed
  rw [later] at isAhead
  rcases List.prefix_or_prefix_of_prefix isAhead (List.prefix_append _ _) with inside | beyond
  · refine avoids opener isOpener (inside.isInfix.trans ?_)
    exact split ▸ (List.suffix_append read _).isInfix
  · have angle : '>' ∈ opener ++ name := by
      refine beyond.subset (List.mem_of_getLast? ?_)
      rw [split, List.getLast?_append_of_ne_nil _ (List.cons_ne_nil _ _)] at closed
      exact closed
    rcases List.mem_append.mp angle with inOpener | inName
    · simp only [tagOpeners, List.mem_cons, List.not_mem_nil, or_false] at isOpener
      rcases isOpener with rfl | rfl <;> exact absurd inOpener (by decide)
    · exact absurd (legal _ inName) (by decide)

/-- A raw body is followed by a closing tag, and a name has no slash in it. -/
theorem startsNoTag_in_body (legal : ∀ character ∈ name, isNameCharacter character)
    (avoids : Avoids name (body ++ ['<'])) (passes : Passes body start stop)
    (atClosing : stop.isClosingTagAhead) {read : List Char} {character : Char}
    (split : body = read ++ character :: rest) (passed : Passes read start place) :
    StartsNoTag name place := by
  intro opener isOpener
  refine isNamedTagAhead_eq_false fun isAhead => ?_
  obtain ⟨after, aheadStop⟩ := List.isPrefixOf_iff_prefix.mp atClosing
  have noSlash : '/' ∉ name := fun member => absurd (legal _ member) (by decide)
  have later : place.ahead = (character :: rest ++ ['<']) ++ '/' :: after := by
    rw [passes.ahead_of_split split passed, ← aheadStop]
    simp [closingTagOpener]
  rw [later] at isAhead
  have notInside : ¬ opener ++ name <+: character :: rest ++ ['<'] := fun inside => by
    refine avoids opener isOpener (inside.isInfix.trans ?_)
    rw [split, List.append_assoc]
    exact (List.suffix_append read _).isInfix
  rcases List.prefix_or_prefix_of_prefix isAhead (List.prefix_append _ _) with inside | beyond
  · exact notInside inside
  obtain ⟨more, word⟩ := beyond
  cases more with
  | nil =>
      rw [List.append_nil] at word
      exact notInside (word ▸ List.prefix_rfl)
  | cons next more =>
      rw [← word, List.prefix_append_right_inj] at isAhead
      obtain rfl : next = '/' := (List.cons_prefix_cons.mp isAhead).1
      -- The slash is behind the second character of the opener and the name.
      simp only [tagOpeners, List.mem_cons, List.not_mem_nil, or_false] at isOpener
      rcases isOpener with rfl | rfl
      · have inName : rest ++ ['<'] ++ '/' :: more = name := (List.cons.inj word).2
        exact noSlash (inName ▸ by simp)
      · obtain ⟨-, inTail⟩ := List.cons.inj word
        cases rest with
        | nil => cases inTail
        | cons second rest =>
            have inName : rest ++ ['<'] ++ '/' :: more = name := (List.cons.inj inTail).2
            exact noSlash (inName ▸ by simp)

theorem seekBodyEnd_of_startsNoTag {character : Char} (ahead : cursor.ahead = character :: rest)
    (startsNone : StartsNoTag name cursor) :
    seekBodyEnd .nested name cursor.ahead depth none cursor =
      seekBodyEnd .nested name cursor.advance.ahead depth none cursor.advance := by
  have notOpening := startsNone ['<'] (by simp [tagOpeners])
  have notClosing := startsNone closingTagOpener (by simp [tagOpeners])
  rw [seekBodyEnd_of_ahead_cons ahead]
  simp [bodyStep, RawKind.isQuote, notOpening, notClosing]

/-- A passage on which no tag of the name starts does not change the depth. -/
theorem Passes.seekBodyEnd_eq (depth : Nat) (passes : Passes text start stop)
    (startsNone : ∀ {read place character rest}, text = read ++ character :: rest →
      Passes read start place → StartsNoTag name place) :
    seekBodyEnd .nested name start.ahead depth none start =
      seekBodyEnd .nested name stop.ahead depth none stop := by
  induction passes with
  | done => rfl
  | next ahead _ ih =>
      rw [seekBodyEnd_of_startsNoTag ahead (startsNone (List.nil_append _).symm (.done _))]
      exact ih fun split passed => startsNone (by rw [split, List.cons_append]) (.next ahead passed)

/-- What is passed is what is ahead of one place and not of the other. -/
theorem LeadsTo.passes (leads : LeadsTo start stop) (ahead : start.ahead = text ++ stop.ahead) :
    Passes text start stop := by
  obtain ⟨passed, passes⟩ := leads
  exact List.append_cancel_right (passes.ahead_eq.symm.trans ahead) ▸ passes

theorem LeadsTo.ahead_ne_nil (leads : LeadsTo start stop) (notAtEnd : stop.ahead ≠ []) :
    start.ahead ≠ [] := by
  obtain ⟨text, ahead⟩ := leads.exists_ahead_eq
  rw [ahead]
  exact List.append_ne_nil_of_right_ne_nil text notAtEnd

/-- A passage ends with what its last part ends with. -/
theorem Passes.getLast?_eq (passes : Passes text start stop) (leads : LeadsTo start place)
    {character : Char} (before : List Char)
    (ahead : place.ahead = before ++ character :: stop.ahead) : text.getLast? = some character := by
  obtain ⟨first, aheadStart⟩ := leads.exists_ahead_eq
  have same : text ++ stop.ahead = first ++ before ++ [character] ++ stop.ahead := by
    rw [← passes.ahead_eq, aheadStart, ahead]
    simp
  rw [List.append_cancel_right same, List.getLast?_concat]

theorem getLast?_comment (passes : Passes text start start.skipComment)
    (notAtEnd : start.skipComment.ahead ≠ []) : text.getLast? = some '>' := by
  have whole : start.CommentIsWhole := (leadsTo_skip start.commentEnd _).ahead_ne_nil notAtEnd
  exact passes.getLast?_eq (leadsTo_commentEnd start) ['-', '-'] (ahead_commentEnd whole)

theorem getLast?_openingTag (passes : Passes text start start.readOpeningTag.2)
    (notAtEnd : start.readOpeningTag.2.ahead ≠ []) : text.getLast? = some '>' := by
  have whole : start.OpeningTagIsWhole :=
    LeadsTo.ahead_ne_nil (leadsTo_skipTagEnd start.openingTagEnd) notAtEnd
  obtain ⟨slash, -, ahead⟩ := ahead_openingTagEnd whole
  exact passes.getLast?_eq (leadsTo_openingTagEnd start) slash ahead

theorem getLast?_closingTag (passes : Passes text start start.readClosingTag.2)
    (notAtEnd : start.readClosingTag.2.ahead ≠ []) : text.getLast? = some '>' := by
  have whole : start.ClosingTagIsWhole :=
    LeadsTo.ahead_ne_nil (leadsTo_advance start.closingTagEnd) notAtEnd
  exact passes.getLast?_eq (leadsTo_closingTagEnd start) [] (ahead_closingTagEnd whole)

theorem not_isNameCharacter_of_endsTagName {character : Char} (ends : endsTagName character) :
    isNameCharacter character = false := by
  simp only [endsTagName, Bool.or_eq_true, beq_iff_eq] at ends
  rcases ends with (isSpace | rfl) | rfl
  · simp [isNameCharacter, isSpace]
  · rfl
  · rfl

/-- The readers of tags and of raw bodies find the same name. -/
theorem isNamedTagAhead_iff_readName (legal : ∀ character ∈ name, isNameCharacter character)
    (startsWith : cursor.startsWith opener) (isTidy : (cursor.skip opener).readName.2.isOn endsTagName) :
    cursor.isNamedTagAhead opener name ↔ (cursor.skip opener).readName.1 = name := by
  have passesOpener : Passes opener cursor (cursor.skip opener) := passes_skip startsWith
  constructor
  · intro isAhead
    obtain ⟨named, mayFollow⟩ := Bool.and_eq_true _ _ ▸ isAhead
    obtain ⟨after, ahead⟩ := List.isPrefixOf_iff_prefix.mp named
    obtain ⟨nameEnd, passesName, aheadEnd⟩ : ∃ nameEnd, Passes name (cursor.skip opener) nameEnd ∧
        nameEnd.ahead = after := by
      refine exists_passes (List.append_cancel_left (passesOpener.ahead_eq.symm.trans ?_))
      rw [← ahead, List.append_assoc]
    rw [readName_eq passesName legal]
    rw [← ahead, List.drop_left, ← aheadEnd] at mayFollow
    cases pending : nameEnd.ahead with
    | nil => exact isOn_of_ahead_nil pending
    | cons character rest =>
        rw [pending] at mayFollow
        rw [isOn_of_ahead_cons pending]
        exact not_isNameCharacter_of_endsTagName mayFollow
  · intro isName
    obtain ⟨read, passesName⟩ := leadsTo_readName (cursor.skip opener)
    obtain rfl : read = name := passesName.textSince_eq.symm.trans isName
    obtain ⟨character, rest, pending, ends⟩ := exists_ahead_of_isOn isTidy
    have ahead : cursor.ahead = opener ++ read ++ character :: rest := by
      rw [passesOpener.ahead_eq, passesName.ahead_eq, pending, List.append_assoc]
    rw [isNamedTagAhead, startsWith_of_ahead ahead, ahead, List.drop_left]
    exact ends

theorem isClosingTagAhead_of_named (isAhead : cursor.isNamedTagAhead closingTagOpener name) :
    cursor.isClosingTagAhead := by
  have startsWith := (Bool.and_eq_true _ _ ▸ isAhead).1
  rw [isClosingTagAhead, Cursor.startsWith, List.isPrefixOf_iff_prefix]
  exact (List.prefix_append _ name).trans (List.isPrefixOf_iff_prefix.mp startsWith)

theorem isOpeningTagAhead_of_named (starts : name.head?.any startsTagName)
    (isAhead : cursor.isNamedTagAhead ['<'] name) : cursor.isOpeningTagAhead := by
  obtain ⟨after, ahead⟩ := List.isPrefixOf_iff_prefix.mp (Bool.and_eq_true _ _ ▸ isAhead).1
  cases name with
  | nil => cases starts
  | cons first later => exact (isOpeningTagAhead_of_ahead ahead.symm).trans starts

/-- No tag starts where text goes on. -/
theorem startsNoTag_of_text (starts : name.head?.any startsTagName)
    (isText : place.endsTextPiece = false) : StartsNoTag name place := by
  obtain ⟨noTag, -⟩ := Bool.or_eq_false_iff.mp isText
  obtain ⟨noOpening, noClosing⟩ := Bool.or_eq_false_iff.mp noTag
  simp only [StartsNoTag, tagOpeners, List.forall_mem_cons]
  exact ⟨Bool.eq_false_iff.mpr (mt (isOpeningTagAhead_of_named starts) (by simp [noOpening])),
    Bool.eq_false_iff.mpr (mt isClosingTagAhead_of_named (by simp [noClosing])), nofun⟩

theorem seekBodyEnd_of_opening (isAhead : cursor.isNamedTagAhead ['<'] name)
    (notClosing : cursor.isNamedTagAhead closingTagOpener name = false) :
    seekBodyEnd .nested name cursor.ahead depth none cursor =
      seekBodyEnd .nested name cursor.advance.ahead (depth + 1) none cursor.advance := by
  obtain ⟨after, ahead⟩ := List.isPrefixOf_iff_prefix.mp (Bool.and_eq_true _ _ ▸ isAhead).1
  rw [seekBodyEnd_of_ahead_cons ahead.symm]
  simp [bodyStep, RawKind.isQuote, isAhead, notClosing]

theorem seekBodyEnd_of_closing (isAhead : cursor.isNamedTagAhead closingTagOpener name) :
    seekBodyEnd .nested name cursor.ahead (depth + 1) none cursor =
      seekBodyEnd .nested name cursor.advance.ahead depth none cursor.advance := by
  obtain ⟨after, ahead⟩ := List.isPrefixOf_iff_prefix.mp (Bool.and_eq_true _ _ ▸ isAhead).1
  rw [seekBodyEnd_of_ahead_cons ahead.symm]
  simp [bodyStep, RawKind.isQuote, isAhead]

theorem getLast?_of_cons {first last : Char} (isLast : (first :: text).getLast? = some last)
    (notFirst : first ≠ last) : text.getLast? = some last := by
  cases text with
  | nil => exact absurd (Option.some.inj isLast) notFirst
  | cons second rest => rwa [List.getLast?_cons_cons] at isLast

/-- A reader that takes at least one character can be followed from behind it. -/
theorem exists_passes_advance {character : Char} (ahead : start.ahead = character :: rest)
    (leads : LeadsTo start stop) (shorter : stop.remaining < start.remaining) :
    Passes (stop.textSince start.advance.offset) start.advance stop ∧
      Passes (character :: stop.textSince start.advance.offset) start stop := by
  obtain ⟨text, passes⟩ := leads
  cases passes with
  | done => exact absurd shorter (Nat.lt_irrefl _)
  | next ahead' later =>
      obtain rfl := (List.cons.inj (ahead'.symm.trans ahead)).1
      rw [later.textSince_eq]
      exact ⟨later, .next ahead later⟩

/-- An opening tag of the name counts once, whether or not it closes itself. -/
theorem seekBodyEnd_openingTag (depth : Nat) (legal : ∀ character ∈ name, isNameCharacter character)
    (isAhead : start.isOpeningTagAhead) (isTidy : (start.skip ['<']).readName.2.isOn endsTagName)
    (avoids : Avoids name (start.readOpeningTag.2.textSince start.advance.offset))
    (notAtEnd : start.readOpeningTag.2.ahead ≠ []) :
    seekBodyEnd .nested name start.ahead depth none start =
      seekBodyEnd .nested name start.readOpeningTag.2.ahead
        (depth + (start.openingMarks name).length) none start.readOpeningTag.2 := by
  obtain ⟨first, rest, ahead, -⟩ := exists_ahead_of_isOpeningTagAhead isAhead
  obtain ⟨later, passes⟩ := exists_passes_advance ahead (leadsTo_readOpeningTag start)
    (remaining_readOpeningTag_lt isAhead)
  have closed := getLast?_of_cons (getLast?_openingTag passes notAtEnd) (by decide)
  have inner (depth : Nat) :=
    later.seekBodyEnd_eq depth (startsNoTag_of_avoids legal avoids closed later)
  have notClosing : start.isNamedTagAhead closingTagOpener name = false :=
    Bool.eq_false_iff.mpr fun isNamed =>
      Bool.false_ne_true ((not_isOpeningTagAhead (isClosingTagAhead_of_named isNamed)).symm.trans isAhead)
  have angle : start.startsWith ['<'] := startsWith_of_ahead ahead
  have isNamed : start.isNamedTagAhead ['<'] name ↔
      start.readOpeningTag.1.tag.name = String.ofList name :=
    (isNamedTagAhead_iff_readName legal angle isTidy).trans String.ofList_inj.symm
  by_cases sameName : start.readOpeningTag.1.tag.name = String.ofList name
  · rw [openingMarks, if_pos sameName, seekBodyEnd_of_opening (isNamed.mpr sameName) notClosing]
    exact inner (depth + 1)
  · have startsNone : StartsNoTag name start := by
      simp only [StartsNoTag, tagOpeners, List.forall_mem_cons]
      exact ⟨Bool.eq_false_iff.mpr (mt isNamed.mp sameName), notClosing, nofun⟩
    rw [openingMarks, if_neg sameName, seekBodyEnd_of_startsNoTag ahead startsNone]
    exact inner depth

/-- A closing tag of the name closes one. -/
theorem seekBodyEnd_closingTag (depth : Nat) (legal : ∀ character ∈ name, isNameCharacter character)
    (starts : name.head?.any startsTagName) (isAhead : start.isClosingTagAhead)
    (isTidy : (start.skip closingTagOpener).readName.2.isOn endsTagName)
    (avoids : Avoids name (start.readClosingTag.2.textSince start.advance.offset))
    (notAtEnd : start.readClosingTag.2.ahead ≠ []) :
    seekBodyEnd .nested name start.ahead (depth + (start.closingMarks name).length) none start =
      seekBodyEnd .nested name start.readClosingTag.2.ahead depth none start.readClosingTag.2 := by
  obtain ⟨rest, ahead⟩ := List.isPrefixOf_iff_prefix.mp isAhead
  obtain ⟨later, passes⟩ := exists_passes_advance ahead.symm (leadsTo_readClosingTag start)
    (remaining_readClosingTag_lt isAhead)
  have closed := getLast?_of_cons (getLast?_closingTag passes notAtEnd) (by decide)
  have inner := later.seekBodyEnd_eq depth (startsNoTag_of_avoids legal avoids closed later)
  have notOpening : start.isNamedTagAhead ['<'] name = false :=
    Bool.eq_false_iff.mpr fun isNamed =>
      Bool.false_ne_true ((not_isOpeningTagAhead isAhead).symm.trans
        (isOpeningTagAhead_of_named starts isNamed))
  have isNamed : start.isNamedTagAhead closingTagOpener name ↔
      start.readClosingTag.1.name = String.ofList name :=
    (isNamedTagAhead_iff_readName legal isAhead isTidy).trans String.ofList_inj.symm
  by_cases sameName : start.readClosingTag.1.name = String.ofList name
  · rw [closingMarks, if_pos sameName]
    exact (seekBodyEnd_of_closing (isNamed.mpr sameName)).trans inner
  · have startsNone : StartsNoTag name start := by
      simp only [StartsNoTag, tagOpeners, List.forall_mem_cons]
      exact ⟨notOpening, Bool.eq_false_iff.mpr (mt isNamed.mp sameName), nofun⟩
    rw [closingMarks, if_neg sameName]
    exact (seekBodyEnd_of_startsNoTag ahead.symm startsNone).trans inner

theorem leadsTo_contentStart (cursor : Cursor) : LeadsTo cursor.readOpeningTag.2 cursor.contentStart := by
  unfold contentStart
  split
  · rfl
  · exact leadsTo_bodyEnd _ _ _

theorem Crosses.leadsTo (crosses : Crosses name marks start stop) : LeadsTo start stop := by
  induction crosses with
  | done => rfl
  | character _ _ _ ih => exact (leadsTo_advance _).trans ih
  | comment _ _ _ ih => exact (leadsTo_skipComment _).trans ih
  | opening _ _ _ _ _ ih =>
      exact (leadsTo_readOpeningTag _).trans ((leadsTo_contentStart _).trans ih)
  | closing _ _ _ _ ih => exact (leadsTo_readClosingTag _).trans ih

theorem seekBodyEnd_contentStart (depth : Nat) (legal : ∀ character ∈ name, isNameCharacter character)
    (avoids : Avoids name (start.contentStart.textSince start.readOpeningTag.2.offset ++ ['<']))
    (notAtEnd : start.contentStart.ahead ≠ []) :
    seekBodyEnd .nested name start.readOpeningTag.2.ahead depth none start.readOpeningTag.2 =
      seekBodyEnd .nested name start.contentStart.ahead depth none start.contentStart := by
  obtain ⟨body, passes⟩ := leadsTo_contentStart start
  rw [passes.textSince_eq] at avoids
  unfold contentStart at *
  split
  · rfl
  · next isRaw =>
      rw [isRaw] at passes notAtEnd
      exact passes.seekBodyEnd_eq depth
        (startsNoTag_in_body legal avoids passes (isClosingTagAhead_bodyEnd _ _ _ notAtEnd))

theorem openingMarks_cases (name : List Char) (cursor : Cursor) :
    cursor.openingMarks name = [] ∨ cursor.openingMarks name = [.opening] ∨
      cursor.openingMarks name = [.selfClosing] := by
  unfold openingMarks
  split
  · split <;> simp
  · exact .inl rfl

theorem closingMarks_cases (name : List Char) (cursor : Cursor) :
    cursor.closingMarks name = [] ∨ cursor.closingMarks name = [.closing] := by
  unfold closingMarks
  split <;> simp

open TagMark in
/-- The depth that the reader of raw bodies keeps is never less than the number of elements that are
open.  Each tag that closes itself adds one to it, which no closing tag takes away again. -/
theorem Crosses.seekBodyEnd_eq (legal : ∀ character ∈ name, isNameCharacter character)
    (starts : name.head?.any startsTagName) (crosses : Crosses name marks start stop)
    (notAtEnd : stop.ahead ≠ []) {opened opened' : Nat} (extra : Nat)
    (isOpen : openAfter? opened marks = some opened') :
    seekBodyEnd .nested name start.ahead (opened + extra) none start =
      seekBodyEnd .nested name stop.ahead (opened' + (extra + marks.count .selfClosing)) none
        stop := by
  induction crosses generalizing opened extra with
  | done => simp_all [openAfter?]
  | character ahead isText _ ih =>
      rw [seekBodyEnd_of_startsNoTag ahead (startsNoTag_of_text starts isText)]
      exact ih notAtEnd extra isOpen
  | @comment _ start _ _ avoids later ih =>
      obtain ⟨text, passes⟩ := leadsTo_skipComment start
      have closed := getLast?_comment passes (later.leadsTo.ahead_ne_nil notAtEnd)
      rw [passes.textSince_eq] at avoids
      rw [passes.seekBodyEnd_eq _ (startsNoTag_of_avoids legal avoids closed passes)]
      exact ih notAtEnd extra isOpen
  | @opening _ start _ isAhead isTidy avoids bodyAvoids later ih =>
      have bodyNotAtEnd := later.leadsTo.ahead_ne_nil notAtEnd
      have tagNotAtEnd := (leadsTo_contentStart start).ahead_ne_nil bodyNotAtEnd
      rw [seekBodyEnd_openingTag _ legal isAhead isTidy avoids tagNotAtEnd,
        seekBodyEnd_contentStart _ legal bodyAvoids bodyNotAtEnd]
      rcases openingMarks_cases name start with none | opens | closesItself
      · rw [none] at isOpen ⊢
        exact ih notAtEnd extra isOpen
      · rw [opens] at isOpen ⊢
        rw [List.length_singleton, Nat.add_right_comm]
        exact ih notAtEnd extra isOpen
      · rw [closesItself] at isOpen ⊢
        rw [List.length_singleton, Nat.add_assoc, ih notAtEnd (extra + 1) isOpen,
          List.singleton_append, List.count_cons_self, Nat.add_assoc, Nat.add_comm 1]
  | @closing _ start _ isAhead isTidy avoids later ih =>
      have tagNotAtEnd := later.leadsTo.ahead_ne_nil notAtEnd
      have tag (depth : Nat) :=
        seekBodyEnd_closingTag depth legal starts isAhead isTidy avoids tagNotAtEnd
      rcases closingMarks_cases name start with none | closes
      · rw [none] at isOpen tag ⊢
        exact (tag _).trans (ih notAtEnd extra isOpen)
      · rw [closes] at isOpen tag ⊢
        cases opened with
        | zero => cases isOpen
        | succ opened =>
            rw [Nat.add_right_comm, List.singleton_append, List.count_cons_of_ne (by decide)]
            exact (tag _).trans (ih notAtEnd extra isOpen)

/-- Before the matching closing tag of a body, the reader of raw bodies stops exactly if nothing is left
to be closed.  Otherwise it goes on. -/
theorem bodyEnd_eq_or_leadsTo (legal : ∀ character ∈ name, isNameCharacter character)
    (starts : name.head?.any startsTagName) (crosses : Crosses name marks start stop)
    (balanced : TagMark.AreBalanced marks) (ahead : stop.ahead = writeClosingTag name ++ rest) :
    if .selfClosing ∈ marks then LeadsTo stop.advance (start.bodyEnd .nested name)
    else start.bodyEnd .nested name = stop := by
  have aheadTag : stop.ahead = '<' :: ('/' :: (name ++ ['>']) ++ rest) := ahead
  have isNamed := isNamedTagAhead_of_closingTag ahead
  have ends : start.bodyEnd .nested name =
      seekBodyEnd .nested name stop.ahead (marks.count .selfClosing) none stop := by
    have crossed := crosses.seekBodyEnd_eq legal starts (by simp [aheadTag]) 0 balanced
    simpa [bodyEnd] using crossed
  rw [ends]
  split
  · next closesItself =>
      obtain ⟨depth, isDepth⟩ := Nat.exists_eq_succ_of_ne_zero
        (Nat.pos_iff_ne_zero.mp (List.count_pos_iff.mpr closesItself))
      rw [isDepth, seekBodyEnd_of_closing isNamed]
      exact leadsTo_seekBodyEnd _ _ _ _ _ _
  · next noneCloses =>
      rw [List.count_eq_zero.mpr noneCloses, seekBodyEnd_of_ahead_cons aheadTag]
      simp [bodyStep, RawKind.isQuote, isNamed]

/-- A raw body ends at its matching closing tag exactly if no tag of its name closes itself in it. -/
theorem readRawBody_eq_iff_none_selfClosing
    (legal : ∀ character ∈ name, isNameCharacter character) (starts : name.head?.any startsTagName)
    (crosses : Crosses name marks start stop) (passes : Passes body start stop)
    (balanced : TagMark.AreBalanced marks) (ahead : stop.ahead = writeClosingTag name ++ rest) :
    ((start.readRawBody .nested name).1 = ⟨String.ofList body, start.position⟩ ∧
      (start.readRawBody .nested name).2.ahead = rest) ↔ .selfClosing ∉ marks := by
  have ends := bodyEnd_eq_or_leadsTo legal starts crosses balanced ahead
  constructor
  · rintro ⟨isBody, -⟩ closesItself
    rw [if_pos closesItself] at ends
    obtain ⟨more, passesMore⟩ := ends
    have aheadCons : stop.ahead = '<' :: ('/' :: (name ++ ['>']) ++ rest) := ahead
    have longer : (start.bodyEnd .nested name).textSince start.offset = body ++ '<' :: more :=
      (passes.trans (.next aheadCons passesMore)).textSince_eq
    have isText : String.ofList ((start.bodyEnd .nested name).textSince start.offset) =
        String.ofList body := congrArg RawBody.text isBody
    rw [longer, String.ofList_inj] at isText
    exact absurd (List.append_right_eq_self.mp isText) (List.cons_ne_nil _ _)
  · intro noneCloses
    rw [if_neg noneCloses] at ends
    have isText : (start.bodyEnd .nested name).textSince start.offset = body :=
      ends ▸ passes.textSince_eq
    refine ⟨?_, ?_⟩
    · rw [← isText]
      rfl
    · rw [readRawBody_snd, ends]
      exact (readClosingTag_eq ahead legal).2

def dividerBody : List Char := "<divider a='>'/><div b=\"<p\"><!-- </di --></div >".toList

def dividerStart : Cursor := ⟨[], dividerBody ++ "</div>after".toList, 0, .start⟩

/-- The inner element has its own closing tag, another name starts with the same letters, and a quoted
value and a comment have angle brackets in them. -/
theorem readRawBody_eq_iff_none_selfClosing_divider :
    (∀ character ∈ "div".toList, isNameCharacter character) ∧ "div".toList.head?.any startsTagName ∧
      ∃ stop, Crosses "div".toList [.opening, .closing] dividerStart stop ∧
        Passes dividerBody dividerStart stop ∧ TagMark.AreBalanced [.opening, .closing] ∧
        stop.ahead = writeClosingTag "div".toList ++ "after".toList ∧
        (((dividerStart.readRawBody .nested "div".toList).1 =
            ⟨String.ofList dividerBody, dividerStart.position⟩ ∧
          (dividerStart.readRawBody .nested "div".toList).2.ahead = "after".toList) ↔
            .selfClosing ∉ [TagMark.opening, .closing]) := by
  let inner := dividerStart.contentStart
  let comment := inner.contentStart
  let closing := comment.skipComment
  have legal : ∀ character ∈ "div".toList, isNameCharacter character := by decide
  have starts : "div".toList.head?.any startsTagName := by decide
  have marks : dividerStart.openingMarks "div".toList ++ (inner.openingMarks "div".toList ++
      (closing.closingMarks "div".toList ++ [])) = [.opening, .closing] := by decide +kernel
  have crosses : Crosses "div".toList [.opening, .closing] dividerStart closing.readClosingTag.2 := by
    rw [← marks]
    refine .opening (by decide +kernel) (by decide +kernel) (by decide +kernel) (by decide +kernel) ?_
    refine .opening (by decide +kernel) (by decide +kernel) (by decide +kernel) (by decide +kernel) ?_
    refine .comment (by decide +kernel) (by decide +kernel) ?_
    exact .closing (by decide +kernel) (by decide +kernel) (by decide +kernel) (.done _)
  have passes : Passes dividerBody dividerStart closing.readClosingTag.2 :=
    crosses.leadsTo.passes (by decide +kernel)
  have balanced : TagMark.AreBalanced [.opening, .closing] := by decide
  have ahead : closing.readClosingTag.2.ahead = writeClosingTag "div".toList ++ "after".toList := by
    decide +kernel
  exact ⟨legal, starts, _, crosses, passes, balanced, ahead,
    readRawBody_eq_iff_none_selfClosing legal starts crosses passes balanced ahead⟩

/-- A tag that closes itself needs no closing tag, but the body goes on to the end of the source. -/
theorem exists_overrun_body :
    ∃ start stop, Crosses "div".toList [.selfClosing] start stop ∧
      Passes "<div/>".toList start stop ∧ TagMark.AreBalanced [.selfClosing] ∧
      stop.ahead = writeClosingTag "div".toList ++ "after".toList ∧
      (start.readRawBody .nested "div".toList).1.text = "<div/></div>after" ∧
      (start.readRawBody .nested "div".toList).2.ahead = [] := by
  let start := atStart "<div/></div>after" .start
  have marks : start.openingMarks "div".toList ++ [] = [.selfClosing] := by decide +kernel
  have crosses : Crosses "div".toList [.selfClosing] start start.contentStart := by
    rw [← marks]
    exact .opening (by decide +kernel) (by decide +kernel) (by decide +kernel) (by decide +kernel)
      (.done _)
  exact ⟨start, start.contentStart, crosses, crosses.leadsTo.passes (by decide +kernel), by decide,
    by decide +kernel, by decide +kernel, by decide +kernel⟩

end Cursor

end TemplateMarkup
