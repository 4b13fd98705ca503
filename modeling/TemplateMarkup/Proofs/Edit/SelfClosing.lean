import TemplateMarkup.Proofs.Assembly.Faults
import TemplateMarkup.Proofs.Assembly.OpenTags
import TemplateMarkup.Proofs.Edit.ExplicitClosing
import TemplateMarkup.Proofs.Markup.TagPass

/-!
# Tags that close themselves

A tag that closes itself says the same as an opening tag with its closing tag directly behind it,
unless the element is void and has no closing tag.

The pass over a tag shows that both tags hold the same attributes.  What the closing tag does depends
on the element: it ends a raw body in which nothing is written, or it closes the component or the
element that the tag before it has opened.  None of these leaves more behind than the tag that
closes itself.

A slash before the `/>` has to be ruled out.  It means nothing there, but before a mere `>` it would
close the tag once more.
-/

namespace TemplateMarkup

open CharacterClass

namespace TagMode

variable {mode continued : TagMode} {last : Option Char} {character : Char} {text : List Char}

theorem after_concat (mode : TagMode) (text : List Char) (character : Char) :
    mode.after (text ++ [character]) = (mode.after text).next character := by
  rw [after, List.foldl_append]
  rfl

/-- A value without quotes ends with what was passed last, and a quoted one has begun with a quote. -/
def Behind (last : Option Char) : TagMode → Prop
  | bare _ value => value.getLast? = last
  | quoted quote _ _ => isQuote quote
  | hidden quote _ _ => isQuote quote
  | _ => True

theorem behind_outset (last : Option Char) (character : Char) : (outset character).Behind last := by
  unfold outset
  split <;> trivial

theorem behind_continued (behind : mode.Behind last)
    (continues : mode.continued? character = some continued) : continued.Behind (some character) := by
  cases mode with
  | afterEquals name =>
      rw [continued?] at continues
      split at continues
      · cases continues
        trivial
      split at continues
      · next opens =>
          cases continues
          exact (Bool.and_eq_true _ _ ▸ opens).1
      · obtain ⟨-, isBare⟩ := Option.ite_none_right_eq_some.mp continues
        cases isBare
        rfl
  | bare name value =>
      obtain ⟨-, isBare⟩ := Option.ite_none_right_eq_some.mp continues
      cases isBare
      exact List.getLast?_concat
  | quoted quote name value =>
      obtain ⟨-, goesOn⟩ := Option.ite_none_left_eq_some.mp continues
      split at goesOn <;> cases goesOn <;> exact behind
  | hidden quote name value =>
      cases continues
      exact behind
  | _ =>
      -- Nothing here is part of a value yet.
      unfold continued? at continues
      repeat' split at continues
      all_goals cases continues
      all_goals trivial

theorem behind_next (behind : mode.Behind last) : (mode.next character).Behind (some character) := by
  cases continues : mode.continued? character with
  | none =>
      rw [next_of_ends continues]
      exact behind_outset _ _
  | some continued =>
      rw [next_of_continued continues]
      exact behind_continued behind continues

theorem behind_after (text : List Char) : (tagName.after text).Behind text.getLast? := by
  induction text using List.reverseRecOn with
  | nil => trivial
  | append_singleton text character ih =>
      rw [after_concat, List.getLast?_concat]
      exact behind_next ih

/-- A slash ends no quoted value. -/
theorem isQuoted_next_slash (behind : mode.Behind last) (isQuoted : mode.isQuoted) :
    (mode.next '/').isQuoted := by
  cases mode with
  | quoted quote name value =>
      have notQuote : '/' ≠ quote := (Cursor.isQuote_spec behind).2.1.symm
      have continues : (quoted quote name value).continued? '/' =
          some (.quoted quote name (value ++ ['/'])) := by
        rw [continued?, if_neg notQuote, if_neg (by decide)]
      rw [next_of_continued continues]
      rfl
  | hidden quote name value => rfl
  | _ => cases isQuoted

/-- A slash makes no difference before the `>` of a tag, unless another one stands before it. -/
theorem pending_next_slash (behind : mode.Behind last) (noSlash : last ≠ some '/')
    (notQuoted : mode.isQuoted = false) :
    mode.ended '/' ++ (mode.next '/').pending (some '>') = mode.pending (some '>') := by
  cases mode with
  | bare name value =>
      have noSlash : value.getLast? ≠ some '/' := fun isLast => noSlash (behind.symm.trans isLast)
      have continues : (bare name value).continued? '/' = some (.bare name (value ++ ['/'])) := rfl
      rw [ended_of_continued continues, next_of_continued continues]
      simp [pending, noSlash]
  | quoted => cases notQuoted
  | hidden => cases notQuoted
  | _ => rfl

/-- What a text gives in which no tag ends does not depend on what follows. -/
theorem exists_pass_append (mode : TagMode)
    (noEnd : ∀ shorter later, text = shorter ++ '>' :: later → (mode.after shorter).isQuoted) :
    ∃ written, ∀ rest, mode.pass (text ++ rest) =
      ⟨written ++ ((mode.after text).pass rest).attributes,
        text ++ ((mode.after text).pass rest).inner, ((mode.after text).pass rest).rest⟩ := by
  induction text generalizing mode with
  | nil => exact ⟨[], fun rest => rfl⟩
  | cons character text ih =>
      have goesOn : character = '>' → mode.isQuoted := fun isAngle => noEnd [] text (isAngle ▸ rfl)
      obtain ⟨written, passed⟩ := ih (mode.next character) fun shorter later split =>
        noEnd (character :: shorter) later (congrArg (character :: ·) split)
      refine ⟨mode.ended character ++ written, fun rest => ?_⟩
      rw [List.cons_append, pass_cons goesOn, passed, List.append_assoc]
      rfl

/-- If the slash of `/>` is left out, the tag ends at the `>` and holds the same attributes. -/
theorem pass_angle_of_slash {rest : List Char}
    (endsAt : tagName.EndsAt (text ++ ['/']) ('>' :: rest)) (noSlash : text.getLast? ≠ some '/')
    (rest' : List Char) :
    tagName.pass (text ++ '>' :: rest') =
      ⟨(tagName.pass (text ++ '/' :: '>' :: rest)).attributes, text, '>' :: rest'⟩ := by
  have behind := behind_after text
  have slashOutside : ((tagName.after text).next '/').isQuoted = false := by
    rw [← after_concat]
    exact (endsAt.angle '>' rfl).2
  have outside : (tagName.after text).isQuoted = false :=
    Bool.eq_false_iff.mpr fun isQuoted => by
      simp [isQuoted_next_slash behind isQuoted] at slashOutside
  have noEnd (shorter later : List Char) (split : text = shorter ++ '>' :: later) :
      (tagName.after shorter).isQuoted :=
    endsAt.isFirst shorter (later ++ ['/']) (by rw [split, List.append_assoc]; rfl)
  obtain ⟨written, passed⟩ := exists_pass_append tagName noEnd
  rw [passed, passed, pass_angle outside, pass_cons (by simp), pass_angle slashOutside,
    pending_next_slash behind noSlash outside, List.append_nil]

end TagMode

namespace Cursor

variable {place place' : Cursor} {text rest rest' : List Char}

/-- A tag that closes itself ends in `/>`. -/
theorem exists_passedTag_of_selfClosing (isAhead : place.isOpeningTagAhead)
    (selfClosing : place.readOpeningTag.1.isSelfClosing) :
    ∃ text, place.ahead = '<' :: (text ++ '/' :: '>' :: place.readOpeningTag.2.ahead) ∧
      place.passedTag.inner = text ++ ['/'] ∧
      place.passedTag.rest = '>' :: place.readOpeningTag.2.ahead := by
  obtain ⟨first, after, ahead, -⟩ := exists_ahead_of_isOpeningTagAhead isAhead
  obtain ⟨text, slash, passes, -, inner, tagEnd, -⟩ := exists_passedTag isAhead
  obtain ⟨isWhole, -⟩ := (isSelfClosingEndAhead_iff isAhead).mp selfClosing
  have isSlash : slash = ['/'] := tagEnd.isSlash.trans (if_pos selfClosing)
  obtain ⟨angle, rest, isRest⟩ := List.exists_cons_of_ne_nil isWhole
  have isAngle : angle = '>' := ((TagMode.pass_spec .tagName place.ahead.tail).2.angle angle
    (by rw [← passedTag, isRest, List.head?_cons]; rfl)).1
  have aheadEnd : place.openingTagEnd.ahead = ['/'] ++ '>' :: rest := by
    rw [tagEnd.ahead, isSlash, isRest, isAngle]
  have aheadAfter : place.readOpeningTag.2.ahead = rest :=
    ahead_skipTagEnd (.inr rfl) aheadEnd
  refine ⟨text, ?_, by rw [inner, isSlash], by rw [isRest, isAngle, aheadAfter]⟩
  have aheadName : first :: after = text ++ '/' :: '>' :: rest := by
    have aheadName := passes.ahead_eq
    rwa [aheadEnd, ahead_advance, ahead, List.tail_cons] at aheadName
  rw [aheadAfter, ahead, aheadName]

theorem takeWhile_isNameCharacter_append {mark mark' : Char}
    (notName : isNameCharacter mark = false) (notName' : isNameCharacter mark' = false)
    (text rest rest' : List Char) :
    (text ++ mark :: rest).takeWhile isNameCharacter =
      (text ++ mark' :: rest').takeWhile isNameCharacter := by
  rw [List.takeWhile_append, List.takeWhile_append, List.takeWhile_cons_of_neg (by simp [notName]),
    List.takeWhile_cons_of_neg (by simp [notName'])]

/-- Without the slash in its end the tag is the same, but for not closing itself. -/
theorem readOpeningTag_without_slash (isAhead : place.isOpeningTagAhead)
    (ahead : place.ahead = '<' :: (text ++ '/' :: '>' :: rest))
    (inner : place.passedTag.inner = text ++ ['/']) (isRest : place.passedTag.rest = '>' :: rest)
    (noSlash : text.getLast? ≠ some '/') (ahead' : place'.ahead = '<' :: (text ++ '>' :: rest')) :
    place'.isOpeningTagAhead ∧
      place'.readOpeningTag.1.reword .unplaced =
        ⟨place.readOpeningTag.1.tag.reword .unplaced, false, ⟨0, 0⟩⟩ ∧
      place'.readOpeningTag.2.ahead = rest' := by
  have isAhead' : place'.isOpeningTagAhead := by
    cases text with
    | nil =>
        rw [isOpeningTagAhead_of_ahead ahead] at isAhead
        cases isAhead
    | cons first text =>
        rw [isOpeningTagAhead_of_ahead ahead']
        rwa [isOpeningTagAhead_of_ahead ahead] at isAhead
  have endsAt : TagMode.tagName.EndsAt place.passedTag.inner place.passedTag.rest :=
    (TagMode.pass_spec .tagName place.ahead.tail).2
  rw [inner, isRest] at endsAt
  have passed' : place'.passedTag = ⟨place.passedTag.attributes, text, '>' :: rest'⟩ := by
    have passed := TagMode.pass_angle_of_slash endsAt noSlash rest'
    rwa [passedTag, passedTag, ahead, ahead']
  obtain ⟨_, _, -, -, -, -, isTag⟩ := exists_passedTag isAhead
  obtain ⟨_, _, -, -, -, tagEnd', isTag'⟩ := exists_passedTag isAhead'
  have opens : place'.openingTagEnd.isSelfClosingEndAhead = false := by
    rw [Bool.eq_false_iff]
    intro selfClosing
    have closes := ((isSelfClosingEndAhead_iff isAhead').mp selfClosing).2
    rw [passed'] at closes
    exact noSlash closes
  have aheadEnd : place'.openingTagEnd.ahead = [] ++ '>' :: rest' := by
    rw [tagEnd'.ahead, tagEnd'.isSlash, if_neg (by simp [opens]), passed']
  refine ⟨isAhead', ?_, ahead_skipTagEnd (.inl rfl) aheadEnd⟩
  have sameTag : place'.readOpeningTag.1.tag.reword .unplaced =
      place.readOpeningTag.1.tag.reword .unplaced := by
    rw [isTag, isTag', passed', ahead, ahead', List.tail_cons, List.tail_cons,
      takeWhile_isNameCharacter_append (show isNameCharacter '/' = false from rfl)
        (show isNameCharacter '>' = false from rfl)]
  have notSelfClosing : place'.readOpeningTag.1.isSelfClosing = false := opens
  rw [OpeningTag.reword, sameTag, notSelfClosing]
  rfl

end Cursor

/-- The tokens of an element that has nothing in it, from its opening tag to its closing tag. -/
def OpeningTag.emptyElement (opened : OpeningTag) : List Token :=
  match opened.rawKind? with
  | some _ => [.opening opened (some ⟨"", .start⟩)]
  | none =>
      [.opening opened none, textToken [] .closingTag,
        .closing ⟨opened.tag.name, .start, ⟨0, 0⟩⟩]

namespace Cursor

variable {place : Cursor} {name rest : List Char}

/-- A raw body ends at once if its closing tag is ahead. -/
theorem readRawBody_of_closingTag (kind : RawKind)
    (legal : ∀ character ∈ name, isNameCharacter character)
    (ahead : place.ahead = writeClosingTag name ++ rest) :
    (place.readRawBody kind name).1.reword .unplaced = ⟨"", .start⟩ ∧
      (place.readRawBody kind name).2.ahead = rest := by
  have isNamed := isNamedTagAhead_of_closingTag ahead
  have notQuote : kind.isQuote '<' = false := by cases kind <;> rfl
  have stays : seekBodyEnd kind name place.ahead 0 none place = place := by
    rw [ahead]
    show seekBodyEnd kind name ('<' :: _) 0 none place = place
    rw [seekBodyEnd, if_neg (by simp [notQuote]), if_pos isNamed]
  rw [readRawBody, stays, (Passes.done place).textSince_eq]
  exact ⟨rfl, (readClosingTag_eq ahead legal).2⟩

theorem unplacedTokensAtTag_of_opening (isAhead : place.isOpeningTagAhead) :
    place.unplacedTokensAtTag =
      .opening (place.readElementStart.1.1.reword .unplaced)
          (place.readElementStart.1.2.map (·.reword .unplaced)) ::
        place.readElementStart.2.unplacedTokens := by
  rw [unplacedTokensAtTag, tokensAtTag, if_pos isAhead]
  rfl

theorem unplacedTokensAtTag_of_selfClosing (isAhead : place.isOpeningTagAhead)
    (selfClosing : place.readOpeningTag.1.isSelfClosing) :
    place.unplacedTokensAtTag =
      .opening ⟨place.readOpeningTag.1.tag.reword .unplaced, true, ⟨0, 0⟩⟩ none ::
        place.readOpeningTag.2.unplacedTokens := by
  have notRaw : place.readOpeningTag.1.rawKind? = none := by
    rw [OpeningTag.rawKind?, selfClosing, Bool.true_or, if_pos rfl]
  rw [unplacedTokensAtTag_of_opening isAhead, readElementStart, notRaw, ← selfClosing]
  rfl

theorem unplacedTokensAtTag_of_emptyElement (isAhead : place.isOpeningTagAhead)
    (ahead : place.readOpeningTag.2.ahead =
      writeClosingTag place.readOpeningTag.1.tag.name.toList ++ rest) :
    ∃ after : Cursor, after.ahead = rest ∧
      place.unplacedTokensAtTag =
        (place.readOpeningTag.1.reword .unplaced).emptyElement ++ after.unplacedTokens := by
  have legal := place.isNameCharacter_of_readOpeningTag
  rw [unplacedTokensAtTag_of_opening isAhead, readElementStart, OpeningTag.emptyElement,
    OpeningTag.rawKind?_reword]
  cases place.readOpeningTag.1.rawKind? with
  | some kind =>
      obtain ⟨body, aheadAfter⟩ := readRawBody_of_closingTag kind legal ahead
      refine ⟨_, aheadAfter, ?_⟩
      rw [Option.map_some, body]
      rfl
  | none =>
      obtain ⟨after, aheadAfter, closing⟩ := unplacedTokens_at_closingTag ahead legal
      have closes : EndsForest .closingTag place.readOpeningTag.2.ahead := ahead ▸ .closingTag _
      obtain ⟨atTag, ending⟩ := closes.textEnd_eq
      refine ⟨after, aheadAfter, ?_⟩
      rw [String.ofList_toList] at closing
      rw [unplacedTokens_eq, readTextPieces_at_tag atTag, ending, closing]
      rfl

end Cursor

/-- Where an element goes is the same with an empty body as with none. -/
theorem Destination.ofElement_of_emptyBody (tag : Tag) (position : Position) :
    ofElement tag (some ⟨"", position⟩) = ofElement tag none := by
  have trimmed : (⟨"", position⟩ : RawBody).trimmed = "" := rfl
  have script : ofScript tag (some ⟨"", position⟩) = ofScript tag none := by
    simp only [ofScript, Option.map_some, Option.map_none, Option.getD_some,
      Option.getD_none, trimmed]
    cases tag.nonemptyValue? "src" <;> rfl
  have style : ofStyle tag (some ⟨"", position⟩) = ofStyle tag none := rfl
  rw [ofElement, ofElement, script, style]

namespace FlatAssembly

variable {tag : Tag} {span : Span} {closing : ClosingTag} {ending : TextEnd}

theorem place_of_emptyBody (flat : FlatAssembly) (tag : Tag) (position : Position) :
    flat.place tag (some ⟨"", position⟩) = flat.place tag none := by
  rw [place, place, Destination.ofElement_of_emptyBody]
  rfl

theorem openTag_of_emptyBody (flat : FlatAssembly) (isElement : tag.componentName? = none)
    (position : Position) :
    flat.openTag ⟨tag, false, span⟩ (some ⟨"", position⟩) = flat.openTag ⟨tag, true, span⟩ none := by
  simp only [openTag, isElement, place_of_emptyBody, addElement, Option.isSome_some, Bool.or_true,
    Bool.true_or, if_true]
  rfl

/-- What is closed before anything has been written into it is closed alone. -/
theorem foldlM_closeAtOnce {flat : FlatAssembly} {frame : Frame} {below : List Frame}
    (isInnermost : flat.frames = frame :: below) (sameName : closing.name = frame.tagName) :
    [textToken [] ending, .closing closing].foldlM step flat = .ok flat.pop := by
  have openNames : flat.openNames = closing.name :: below.map Frame.tagName := by
    rw [FlatAssembly.openNames, isInnermost, List.map_cons, sameName]
  rw [List.foldlM_cons, step_textToken_nil]
  show [Token.closing closing].foldlM step flat = .ok flat.pop
  rw [List.foldlM_cons, step, closeTag_head openNames]
  rfl

theorem openComponent_thenClose (flat : FlatAssembly) (name : String)
    (isTemplate : closing.name = "template") :
    (flat.openComponent name ⟨tag, false, span⟩ >>=
        [textToken [] ending, .closing closing].foldlM step) =
      flat.openComponent name ⟨tag, true, span⟩ := by
  rw [openComponent, openComponent]
  split
  · rfl
  · exact foldlM_closeAtOnce rfl isTemplate

theorem addElement_thenClose (flat : FlatAssembly) (notVoid : tag.isVoid = false)
    (sameName : closing.name = tag.name) :
    [textToken [] ending, .closing closing].foldlM step (flat.addElement ⟨tag, false, span⟩ none) =
      .ok (flat.addElement ⟨tag, true, span⟩ none) := by
  simp only [addElement, notVoid, Option.isSome_none, Bool.or_false, Bool.false_eq_true, if_false,
    if_true]
  exact foldlM_closeAtOnce rfl sameName

/-- What is neither void nor raw nor a component is an element that can be opened. -/
theorem openTag_of_markup (notVoid : tag.isVoid = false) (isElement : tag.componentName? = none)
    (notRaw : tag.hasRawBody = false) (flat : FlatAssembly) (isSelfClosing : Bool) :
    flat.openTag ⟨tag, isSelfClosing, span⟩ none =
      .ok (flat.addElement ⟨tag, isSelfClosing, span⟩ none) := by
  have notLink : (tag.name == "link") = false := by
    rw [Bool.eq_false_iff]
    intro isLink
    rw [Tag.isVoid, beq_iff_eq.mp isLink] at notVoid
    cases notVoid
  have notForeign : TagName.hasForeignBody tag.name = false := (Bool.or_eq_false_iff.mp notRaw).1
  simp only [openTag, notLink, notForeign, isElement, Bool.or_false, Bool.false_eq_true, if_false]

/-- An element without anything in it leaves behind what a tag leaves behind that closes itself. -/
theorem foldlM_emptyElement (flat : FlatAssembly) (notVoid : tag.isVoid = false) (span : Span) :
    (OpeningTag.emptyElement ⟨tag, false, span⟩).foldlM step flat =
      flat.openTag ⟨tag, true, span⟩ none := by
  have isRaw := OpeningTag.isSome_rawKind? ⟨tag, false, span⟩
  simp only [notVoid, Bool.not_false, Bool.true_and] at isRaw
  unfold OpeningTag.emptyElement
  cases raw : OpeningTag.rawKind? ⟨tag, false, span⟩ with
  | some kind =>
      rw [raw, Option.isSome_some, eq_comm, Bool.and_eq_true, Option.isNone_iff_eq_none] at isRaw
      rw [List.foldlM_cons, step, flat.openTag_of_emptyBody isRaw.1]
      exact bind_pure _
  | none =>
      rw [List.foldlM_cons, step]
      cases declares : tag.componentName? with
      | some name =>
          rw [openTag_of_componentName? declares, openTag_of_componentName? declares]
          exact flat.openComponent_thenClose name (name_of_componentName?_eq_some declares)
      | none =>
          rw [raw, declares] at isRaw
          rw [openTag_of_markup notVoid declares isRaw.symm,
            openTag_of_markup notVoid declares isRaw.symm]
          exact flat.addElement_thenClose notVoid rfl

theorem foldlM_emptyElement_append (flat : FlatAssembly) (notVoid : tag.isVoid = false)
    (first later : List Token) :
    (first ++ (OpeningTag.emptyElement ⟨tag, false, span⟩ ++ later)).foldlM step flat =
      (first ++ .opening ⟨tag, true, span⟩ none :: later).foldlM step flat := by
  rw [List.foldlM_append, List.foldlM_append]
  refine congrArg _ (funext fun reached => ?_)
  rw [List.foldlM_append, reached.foldlM_emptyElement notVoid]
  rfl

end FlatAssembly

namespace Cursor

variable {cursor : Cursor}

theorem Passes.readsText_seek {text : List Char}
    (passes : Passes text cursor (cursor.seek endsTextPiece)) :
    ReadsText text cursor (cursor.seek endsTextPiece) := by
  induction text generalizing cursor with
  | nil =>
      rw [passes.unique (.done cursor)]
      exact .done cursor
  | cons character text ih =>
      obtain ⟨goesOn, later⟩ := passes.seek_of_cons
      rw [seek_of_not_halts goesOn] at passes ⊢
      cases passes with
      | next ahead _ => exact .character ahead goesOn (ih later)

/-- The text before a tag is a text that can be followed. -/
theorem exists_readsText (cursor : Cursor) (hasTag : cursor.readTextPieces.2.ahead ≠ []) :
    ∃ text, ReadsText text cursor cursor.readTextPieces.2 := by
  fun_induction readTextPieces cursor with
  | case1 cursor pieceEnd piece isComment later ih =>
      obtain ⟨text, passes⟩ := leadsTo_seek cursor endsTextPiece
      obtain ⟨more, reads⟩ := ih hasTag
      have whole : pieceEnd.CommentIsWhole := fun atEnd =>
        hasTag <| ahead_eq_nil_of_leadsTo reads.leadsTo <|
          ahead_eq_nil_of_leadsTo (leadsTo_skip pieceEnd.commentEnd _) atEnd
      exact ⟨_, passes.readsText_seek.trans (.comment isComment whole reads)⟩
  | case2 cursor pieceEnd piece notComment =>
      obtain ⟨text, passes⟩ := leadsTo_seek cursor endsTextPiece
      exact ⟨text, passes.readsText_seek⟩

end Cursor

theorem Turn.mem_onwards (turn : Turn) : turn ∈ turn.onwards := by
  rw [onwards]
  split <;> exact List.mem_cons_self

/-- A tag that is read in some turn is reached over whole tags and a text. -/
theorem Turn.exists_reaches {source : String} {start : Position} {turn : Turn}
    (isTurn : turn ∈ Template.turns source start) (hasTag : turn.tagPlace.ahead ≠ []) :
    ∃ tokens text, (Cursor.atStart source start).Reaches tokens text turn.tagPlace := by
  obtain ⟨tokens, runs, -⟩ := Turn.exists_runs hasTag isTurn
  obtain ⟨text, reads⟩ := turn.place.exists_readsText hasTag
  exact ⟨tokens, text, turn.place, runs, reads⟩

/-- The tokens before the tag and those after it are the same in both sources. -/
theorem Cursor.Reaches.exists_tokens_openThenClose {before after text : List Char}
    {tokens : List Token} {start start' place : Cursor} (reached : start.Reaches tokens text place)
    (isAhead : place.isOpeningTagAhead) (selfClosing : place.readOpeningTag.1.isSelfClosing)
    (tagEnd : place.readOpeningTag.2.ahead = after) (noSlash : before.getLast? ≠ some '/')
    (ahead : start.ahead = before ++ '/' :: '>' :: after)
    (ahead' : start'.ahead =
      before ++ '>' :: (writeClosingTag place.readOpeningTag.1.tag.name.toList ++ after)) :
    ∃ first later,
      start.unplacedTokens =
        first ++ .opening ⟨place.readOpeningTag.1.tag.reword .unplaced, true, ⟨0, 0⟩⟩ none :: later ∧
      start'.unplacedTokens = first ++ (OpeningTag.emptyElement
        ⟨place.readOpeningTag.1.tag.reword .unplaced, false, ⟨0, 0⟩⟩ ++ later) := by
  obtain ⟨inner, aheadTag, isInner, isRest⟩ := exists_passedTag_of_selfClosing isAhead selfClosing
  obtain ⟨first, aheadStart⟩ := reached.leadsTo.exists_ahead_eq
  have isBefore : before = first ++ '<' :: inner := by
    have whole : before ++ '/' :: '>' :: after = first ++ '<' :: inner ++ '/' :: '>' :: after := by
      rw [← ahead, aheadStart, aheadTag, tagEnd, List.append_assoc, List.cons_append]
    exact List.append_cancel_right whole
  have noSlash : inner.getLast? ≠ some '/' := fun isLast => noSlash <| by
    rw [isBefore, List.getLast?_append, List.getLast?_cons, isLast]
    rfl
  -- The way to the tag leads to the opening tag in the other source.
  rw [isBefore, List.append_assoc, List.cons_append] at ahead'
  obtain ⟨tokens', place', reached', same, aheadTag'⟩ :=
    reached.exists_of_ahead (by rfl) aheadStart ahead'
  obtain ⟨isAhead', isTag', aheadClosing⟩ :=
    readOpeningTag_without_slash isAhead aheadTag isInner isRest noSlash aheadTag'
  have sameName : place'.readOpeningTag.1.tag.name = place.readOpeningTag.1.tag.name :=
    congrArg (·.tag.name) isTag'
  obtain ⟨later, aheadLater, atTag'⟩ :=
    unplacedTokensAtTag_of_emptyElement isAhead' (sameName ▸ aheadClosing)
  rw [isTag', unplacedTokens_of_ahead_eq (aheadLater.trans tagEnd.symm)] at atTag'
  have atTag := unplacedTokensAtTag_of_selfClosing isAhead selfClosing
  have ending : place.textEnd = .openingTag := if_pos isAhead
  have ending' : place'.textEnd = .openingTag := if_pos isAhead'
  refine ⟨tokens.map (·.reword .unplaced) ++ [textToken text .openingTag],
    place.readOpeningTag.2.unplacedTokens, ?_, ?_⟩
  · rw [reached.unplacedTokens_eq, readTextPieces_at_tag (.inr (.inl isAhead)), ending, atTag,
      List.append_nil, List.append_cons]
  · rw [reached'.unplacedTokens_eq, readTextPieces_at_tag (.inr (.inl isAhead')), ending', atTag',
      same, List.append_nil, List.append_cons]

namespace Template

variable {before after : String} {start : Position}

/-- A tag that closes itself says the same as an opening tag with its closing tag directly behind it,
but for positions. -/
theorem agreeUnplaced_openThenClose {turn : Turn} {opening : OpeningTag} {body : Option RawBody}
    (isTurn : turn ∈ turns (before ++ "/>" ++ after) start)
    (isOpening : turn.opening? = some (opening, body)) (selfClosing : opening.isSelfClosing)
    (notVoid : opening.tag.isVoid = false) (tagEnd : turn.tagEnd.ahead = after.toList)
    (noSlash : before.toList.getLast? ≠ some '/') (sourcePath : Option String) :
    AgreeUnplaced (parse (before ++ "></" ++ opening.tag.name ++ ">" ++ after) start sourcePath)
      (parse (before ++ "/>" ++ after) start sourcePath) := by
  obtain ⟨isAhead, isStart⟩ := Option.ite_none_right_eq_some.mp isOpening
  rw [Cursor.fst_readElementStart, Option.some_inj] at isStart
  have isTag : turn.tagPlace.readOpeningTag.1 = opening := congrArg Prod.fst isStart
  subst isTag
  have hasTag : turn.tagPlace.ahead ≠ [] := fun atEnd => by
    simp [Cursor.isOpeningTagAhead, Cursor.isOn_of_ahead_nil atEnd] at isAhead
  obtain ⟨tokens, text, reached⟩ := Turn.exists_reaches isTurn hasTag
  rw [Turn.tagEnd, if_pos isAhead] at tagEnd
  have ahead : (Cursor.atStart (before ++ "/>" ++ after) start).ahead =
      before.toList ++ '/' :: '>' :: after.toList := by
    simp [Cursor.atStart]
  let name := turn.tagPlace.readOpeningTag.1.tag.name
  have ahead' : (Cursor.atStart (before ++ "></" ++ name ++ ">" ++ after) start).ahead =
      before.toList ++ '>' :: (writeClosingTag name.toList ++ after.toList) := by
    simp [Cursor.atStart, writeClosingTag]
  obtain ⟨first, later, closedTokens, openedTokens⟩ :=
    reached.exists_tokens_openThenClose isAhead selfClosing tagEnd noSlash ahead ahead'
  have notVoid : (turn.tagPlace.readOpeningTag.1.tag.reword .unplaced).isVoid = false := by
    rw [Tag.isVoid_reword, notVoid]
  rw [AgreeUnplaced, outcome_parse, outcome_parse, ofTokens_eq_flat, ofTokens_eq_flat, closedTokens,
    openedTokens, FlatAssembly.foldlM_emptyElement_append _ notVoid]

/-- A value without quotes ends before `/>` and before `>`, and the script is collected in both
sources. -/
theorem agreeUnplaced_openThenClose_script :
    let source := "x<script src=./a" ++ "/>" ++ "y"
    ∃ turn ∈ turns source .start, ∃ opening, turn.opening? = some (opening, none) ∧
      opening.isSelfClosing ∧ opening.tag.isVoid = false ∧ turn.tagEnd.ahead = "y".toList ∧
      "x<script src=./a".toList.getLast? ≠ some '/' ∧
      AgreeUnplaced (parse ("x<script src=./a" ++ "></" ++ "script" ++ ">" ++ "y") .start none)
        (parse source .start none) := by
  intro source
  let turn := Turn.initial source .start
  have isOpening : turn.opening? = some (turn.tagPlace.readOpeningTag.1, none) := by decide +kernel
  have agree := agreeUnplaced_openThenClose turn.mem_onwards isOpening (by decide +kernel)
    (by decide +kernel) (by decide +kernel) (by decide +kernel) none
  have isScript : turn.tagPlace.readOpeningTag.1.tag.name = "script" := by decide +kernel
  rw [isScript] at agree
  exact ⟨turn, turn.mem_onwards, _, isOpening, by decide +kernel, by decide +kernel,
    by decide +kernel, by decide +kernel, agree⟩

/-- A slash means nothing before `/>`.  Before `>` it closes the tag, and then nothing is left for the
closing tag. -/
theorem not_agreeUnplaced_secondSlash :
    let source := "<a /" ++ "/>" ++ ""
    ∃ turn ∈ turns source .start, ∃ opening, turn.opening? = some (opening, none) ∧
      opening.isSelfClosing ∧ opening.tag.isVoid = false ∧ turn.tagEnd.ahead = "".toList ∧
      ¬ AgreeUnplaced (parse ("<a /" ++ "></" ++ opening.tag.name ++ ">" ++ "") .start none)
        (parse source .start none) := by
  intro source
  let turn := Turn.initial source .start
  have isOpening : turn.opening? = some (turn.tagPlace.readOpeningTag.1, none) := by decide +kernel
  refine ⟨turn, turn.mem_onwards, _, isOpening, by decide +kernel, by decide +kernel,
    by decide +kernel, fun agree => ?_⟩
  have bothRead := congrArg Except.toBool agree
  revert bothRead
  decide +kernel

end Template

end TemplateMarkup
