import TemplateMarkup.Markup.Token
import TemplateMarkup.Proofs.Source.Correspondence

/-!
# Reading corresponding sources

The readers of text runs, names, values and raw bodies come to corresponding places in corresponding
sources.  What they read on the way differs in its line endings alone, and names do not differ at all.
-/

namespace TemplateMarkup

open CharacterClass

namespace Cursor

variable {cursor : Cursor}

theorem readTextPieces_of_comment
    (isComment : (cursor.seek endsTextPiece).isCommentAhead = true) :
    cursor.readTextPieces =
      ((cursor.seek endsTextPiece).textSince cursor.offset ++
          (cursor.seek endsTextPiece).skipComment.readTextPieces.1,
        (cursor.seek endsTextPiece).skipComment.readTextPieces.2) := by
  rw [readTextPieces, dif_pos isComment]

theorem readTextPieces_of_end
    (notComment : (cursor.seek endsTextPiece).isCommentAhead = false) :
    cursor.readTextPieces =
      ((cursor.seek endsTextPiece).textSince cursor.offset, cursor.seek endsTextPiece) := by
  rw [readTextPieces, dif_neg (by simp [notComment])]

/-- What becomes of the depth and the open quote of a raw body at a character.  There is nothing at
its end. -/
def bodyStep (kind : RawKind) (name : List Char) (depth : Nat) (quote : Option Char)
    (character : Char) (cursor : Cursor) : Option (Nat × Option Char) :=
  match quote with
  | some quote => some (depth, if cursor.endsLiteral quote then none else some quote)
  | none =>
      if kind.isQuote character then some (depth, some character)
      else if cursor.isNamedTagAhead closingTagOpener name then
        match depth with
        | 0 => none
        | outer + 1 => some (outer, none)
      else if kind = .nested ∧ cursor.isNamedTagAhead ['<'] name then some (depth + 1, none)
      else some (depth, none)

variable {kind : RawKind} {name rest : List Char} {depth : Nat} {quote : Option Char}
variable {character : Char}

theorem seekBodyEnd_of_ahead_cons (ahead : cursor.ahead = character :: rest) :
    seekBodyEnd kind name cursor.ahead depth quote cursor =
      match bodyStep kind name depth quote character cursor with
      | none => cursor
      | some (depth, quote) =>
          seekBodyEnd kind name cursor.advance.ahead depth quote cursor.advance := by
  have next : cursor.advance.ahead = rest := by rw [advance_of_ahead_cons ahead]
  rw [ahead, next]
  cases quote with
  | some quote => rfl
  | none =>
      unfold bodyStep
      conv_lhs => unfold seekBodyEnd
      by_cases isQuote : kind.isQuote character
      · rw [if_pos isQuote, if_pos isQuote]
      rw [if_neg isQuote, if_neg isQuote]
      by_cases closes : cursor.isNamedTagAhead closingTagOpener name
      · rw [if_pos closes, if_pos closes]
        cases depth <;> rfl
      rw [if_neg closes, if_neg closes]
      split <;> rfl

theorem bodyStep_quote {deeper : Nat} {later : Char}
    (step : bodyStep kind name depth quote character cursor = some (deeper, some later)) :
    quote = some later ∨ kind.isQuote later := by
  unfold bodyStep at step
  cases quote with
  | some quote =>
      simp only [Option.some.injEq, Prod.mk.injEq] at step
      split at step
      · cases step.2
      · exact .inl step.2
  | none =>
      simp only at step
      split at step
      · next isQuote =>
          cases step
          exact .inr isQuote
      · split at step
        · split at step <;> cases step
        · split at step <;> cases step

theorem not_isNamedTagAhead {opener : List Char} (notAngle : character ≠ '<')
    (ahead : cursor.ahead = character :: rest) :
    cursor.isNamedTagAhead ('<' :: opener) name = false := by
  have absent : ('<' == character) = false := beq_false_of_ne notAngle.symm
  rw [isNamedTagAhead, startsWith, ahead, List.cons_append, List.isPrefixOf, absent, Bool.false_and,
    Bool.false_and]

theorem bodyStep_of_ordinary (notAngle : character ≠ '<') (notQuote : kind.isQuote character = false)
    (ahead : cursor.ahead = character :: rest) :
    bodyStep kind name depth none character cursor = some (depth, none) := by
  have noClosing : cursor.isNamedTagAhead closingTagOpener name = false :=
    not_isNamedTagAhead notAngle ahead
  have noOpening : cursor.isNamedTagAhead ['<'] name = false := not_isNamedTagAhead notAngle ahead
  simp [bodyStep, notQuote, noClosing, noOpening]

end Cursor

namespace Correspondence

open Cursor

variable {same : Correspondence} {cursor other : Cursor}

theorem alike_isOpeningTagAhead : same.Alike isOpeningTagAhead where
  eq {cursor other} related := by
    have peek (place : Cursor) : place.peek? 1 = place.ahead.tail.head? := by
      rw [peek?, List.head?_eq_getElem?, List.getElem?_tail]
    have angle : other.isOn (· == '<') = cursor.isOn (· == '<') := isOn_eq rfl related
    unfold isOpeningTagAhead
    rw [angle, peek, peek, same.ahead_eq related]
    cases ahead : cursor.ahead with
    | nil => rfl
    | cons character rest =>
        by_cases lineFeed : character = '\n'
        · subst lineFeed
          rw [isOn_of_ahead_cons ahead]
          rfl
        · have next : (same.ending.write rest).head?.any startsTagName =
              rest.head?.any startsTagName := LineEnding.any_head?_write _ rfl rest
          rw [LineEnding.write_cons_of_ne _ lineFeed, List.tail_cons, List.tail_cons, next]
  atLineFeed here there := by
    unfold isOpeningTagAhead
    rw [isOn_of_ahead_cons here, isOn_of_ahead_cons there]
    rfl

theorem alike_isClosingTagAhead : same.Alike isClosingTagAhead := by
  show same.Alike fun place => place.startsWith ['<', '/']
  exact .startsWith (by decide) (by decide)

theorem alike_isCommentAhead : same.Alike isCommentAhead := by
  show same.Alike fun place => place.startsWith ['<', '!', '-', '-']
  exact .startsWith (by decide) (by decide)

theorem alike_endsTextPiece : same.Alike endsTextPiece :=
  (alike_isOpeningTagAhead.or alike_isClosingTagAhead).or alike_isCommentAhead

theorem relates_skipComment (related : same.Relates cursor other) :
    same.Relates cursor.skipComment other.skipComment := by
  have closes : same.Alike fun place => place.startsWith commentCloser := by
    show same.Alike fun place => place.startsWith ['-', '-', '>']
    exact .startsWith (by decide) (by decide)
  have opened : same.Relates (cursor.skip commentOpener) (other.skip commentOpener) :=
    relates_skip (by decide) (by decide) related
  obtain ⟨_, reads⟩ := reads_seek closes opened
  exact relates_skip (by decide) (by decide) reads.relates

theorem readTextPieces_eq (related : same.Relates cursor other) :
    other.readTextPieces.1 = same.ending.write cursor.readTextPieces.1 ∧
      same.Relates cursor.readTextPieces.2 other.readTextPieces.2 := by
  -- A comment takes at least its opener, so that less is left after it.
  induction size : cursor.remaining using Nat.strongRecOn generalizing cursor other with
  | ind count ih =>
      obtain ⟨text, reads⟩ := reads_seek alike_endsTextPiece related
      obtain ⟨here, there⟩ := reads.textSince_eq
      have alike := alike_isCommentAhead.eq reads.relates
      cases isComment : (cursor.seek endsTextPiece).isCommentAhead with
      | false =>
          have pieces := readTextPieces_of_end isComment
          have pieces' := readTextPieces_of_end (alike.trans isComment)
          rw [pieces, pieces', here, there]
          exact ⟨rfl, reads.relates⟩
      | true =>
          have pieces := readTextPieces_of_comment isComment
          have pieces' := readTextPieces_of_comment (alike.trans isComment)
          have shorter : (cursor.seek endsTextPiece).skipComment.remaining < count :=
            size ▸ Nat.lt_of_lt_of_le (remaining_skipComment_lt isComment)
              (remaining_seek_le _ _)
          obtain ⟨later, ends⟩ := ih _ shorter (relates_skipComment reads.relates) rfl
          rw [pieces, pieces', here, there, later, LineEnding.write_append]
          exact ⟨rfl, ends⟩

theorem textEnd_eq (related : same.Relates cursor other) : other.textEnd = cursor.textEnd := by
  unfold textEnd
  rw [alike_isOpeningTagAhead.eq related, alike_isClosingTagAhead.eq related]

/-- Names are the same in both sources. -/
theorem reads_name (related : same.Relates cursor other) :
    ∃ name, same.Reads name cursor other (cursor.skipWhile isNameCharacter)
        (other.skipWhile isNameCharacter) ∧
      same.ending.write name = name ∧ '\n' ∉ name ∧ '\r' ∉ name := by
  obtain ⟨name, reads⟩ := reads_skipWhile (rfl : isNameCharacter '\r' = _) related
  have legal := reads.passes.belongs_of_skipWhile
  have noLineFeed : '\n' ∉ name := fun member => absurd (legal _ member) (by decide)
  have noReturn : '\r' ∉ name := fun member => absurd (legal _ member) (by decide)
  exact ⟨name, reads, LineEnding.write_eq_self _ noLineFeed, noLineFeed, noReturn⟩

theorem readName_eq (related : same.Relates cursor other) :
    other.readName.1 = cursor.readName.1 ∧ '\n' ∉ cursor.readName.1 ∧ '\r' ∉ cursor.readName.1 ∧
      same.Relates cursor.readName.2 other.readName.2 := by
  obtain ⟨name, reads, kept, noLineFeed, noReturn⟩ := reads_name related
  obtain ⟨here, there⟩ := reads.textSince_eq
  rw [kept] at there
  simp only [readName, here, there, true_and]
  exact ⟨noLineFeed, noReturn, reads.relates⟩

theorem readQuotedValue_eq {quote : Char} (notLineFeed : quote ≠ '\n') (notReturn : quote ≠ '\r')
    (related : same.Relates cursor other) :
    (other.readQuotedValue quote).1 = same.ending.write (cursor.readQuotedValue quote).1 ∧
      same.Relates (cursor.readQuotedValue quote).2 (other.readQuotedValue quote).2 := by
  have closes : same.Alike fun place => place.isOn (· == quote) && !place.isEscaped :=
    .isOn_and_not_isEscaped notLineFeed notReturn
  obtain ⟨text, reads⟩ := reads_seek closes related
  obtain ⟨here, there⟩ := reads.textSince_eq
  simp only [readQuotedValue, here, there, true_and]
  refine relates_seek_advance closes (fun place onLineFeed => ?_) related
  rw [isOn, onLineFeed, Option.any_some, beq_false_of_ne notLineFeed.symm, Bool.false_and]

theorem alike_isSelfClosingEndAhead : same.Alike isSelfClosingEndAhead := by
  show same.Alike fun place => place.startsWith ['/', '>']
  exact .startsWith (by decide) (by decide)

theorem readUnquotedValue_eq (related : same.Relates cursor other) :
    other.readUnquotedValue.1 = same.ending.write cursor.readUnquotedValue.1 ∧
      same.Relates cursor.readUnquotedValue.2 other.readUnquotedValue.2 := by
  have ends : same.Alike fun place =>
      place.isSelfClosingEndAhead || !place.isOn isUnquotedValueCharacter :=
    alike_isSelfClosingEndAhead.or (Alike.isOn rfl).not
  obtain ⟨text, reads⟩ := reads_seek ends related
  obtain ⟨here, there⟩ := reads.textSince_eq
  simp only [readUnquotedValue, here, there, true_and]
  exact reads.relates

theorem readAttributeValue_eq (backtickQuotes : Bool) (related : same.Relates cursor other) :
    (other.readAttributeValue backtickQuotes).1 =
        (cursor.readAttributeValue backtickQuotes).1.map same.ending.write ∧
      same.Relates (cursor.readAttributeValue backtickQuotes).2
        (other.readAttributeValue backtickQuotes).2 := by
  obtain ⟨unquoted, afterUnquoted⟩ := readUnquotedValue_eq related
  rcases current?_cases related with ⟨sameCharacter, notLineFeed⟩ | ⟨onLineFeed, onBreak⟩
  · unfold readAttributeValue
    rw [sameCharacter]
    cases current : cursor.current? with
    | none => exact ⟨rfl, related⟩
    | some character =>
        rw [current] at notLineFeed
        simp only
        split
        · next quotes =>
            have isQuoted : isQuote character = true := (Bool.and_eq_true _ _ ▸ quotes).1
            have notReturn : character ≠ '\r' := by
              rintro rfl
              exact absurd isQuoted (by decide)
            have quoted := readQuotedValue_eq (fun same => notLineFeed (congrArg some same))
              notReturn (relates_advance related (by rwa [current]))
            exact ⟨congrArg some quoted.1, quoted.2⟩
        · exact ⟨congrArg some unquoted, afterUnquoted⟩
  · have isUnquoted {place : Cursor} {character : Char} (current : place.current? = some character)
        (notQuote : isQuote character = false) :
        place.readAttributeValue backtickQuotes =
          (some place.readUnquotedValue.1, place.readUnquotedValue.2) := by
      simp [readAttributeValue, current, notQuote]
    rw [isUnquoted onLineFeed rfl]
    rcases onBreak with onBreak | onBreak
    all_goals
      rw [isUnquoted onBreak rfl]
      exact ⟨congrArg some unquoted, afterUnquoted⟩

theorem readAssignedValue_eq (backtickQuotes : Bool) (related : same.Relates cursor other) :
    (other.readAssignedValue backtickQuotes).1 =
        (cursor.readAssignedValue backtickQuotes).1.map same.ending.write ∧
      same.Relates (cursor.readAssignedValue backtickQuotes).2
        (other.readAssignedValue backtickQuotes).2 := by
  obtain ⟨_, spaces⟩ := reads_skipWhile (rfl : isWhitespace '\r' = _) related
  have afterName : same.Relates cursor.skipWhitespace other.skipWhitespace := spaces.relates
  have assigned : other.skipWhitespace.startsWith ['='] =
      cursor.skipWhitespace.startsWith ['='] := startsWith_eq (by decide) (by decide) afterName
  unfold readAssignedValue
  simp only [assigned]
  split
  · next isAssigned =>
      have onEquals : cursor.skipWhitespace.current? ≠ some '\n' := by
        intro onLineFeed
        obtain ⟨rest, ahead⟩ := List.isPrefixOf_iff_prefix.mp isAssigned
        rw [current?, ← ahead] at onLineFeed
        exact absurd (Option.some.inj onLineFeed) (by decide)
      obtain ⟨_, moreSpaces⟩ :=
        reads_skipWhile (rfl : isWhitespace '\r' = _) (relates_advance afterName onEquals)
      exact readAttributeValue_eq backtickQuotes moreSpaces.relates
  · exact ⟨rfl, afterName⟩

theorem sigil?_eq (related : same.Relates cursor other) : other.sigil? = cursor.sigil? := by
  unfold sigil?
  rcases current?_cases related with ⟨sameCharacter, -⟩ | ⟨onLineFeed, onBreak⟩
  · rw [sameCharacter]
  · rw [onLineFeed]
    rcases onBreak with onBreak | onBreak
    · rw [onBreak]
    · rw [onBreak]
      rfl

section RawBodies

variable {kind : RawKind} {name rest : List Char} {depth : Nat} {quote : Option Char}
variable {character : Char}

theorem isNamedTagAhead_eq {opener : List Char} (noLineFeed : '\n' ∉ opener ++ name)
    (noReturn : '\r' ∉ opener ++ name) (related : same.Relates cursor other) :
    other.isNamedTagAhead opener name = cursor.isNamedTagAhead opener name := by
  unfold isNamedTagAhead
  rw [startsWith_eq noLineFeed noReturn related]
  cases isAhead : cursor.startsWith (opener ++ name) with
  | false => rfl
  | true =>
      rw [same.ahead_eq related, LineEnding.drop_write _ noLineFeed isAhead,
        LineEnding.all_head?_write _ rfl]

theorem endsLiteral_eq {quote : Char} (sameCharacter : other.current? = cursor.current?)
    (related : same.Relates cursor other) :
    other.endsLiteral quote = cursor.endsLiteral quote := by
  unfold endsLiteral continuesLine isOn
  rw [sameCharacter, isEscaped_eq related, same.afterReturn_eq related]

theorem bodyStep_eq (noLineFeed : '\n' ∉ name) (noReturn : '\r' ∉ name)
    (sameCharacter : other.current? = cursor.current?) (related : same.Relates cursor other) :
    bodyStep kind name depth quote character other =
      bodyStep kind name depth quote character cursor := by
  unfold bodyStep
  cases quote with
  | some quote => simp only [endsLiteral_eq sameCharacter related]
  | none =>
      have closing : other.isNamedTagAhead closingTagOpener name =
          cursor.isNamedTagAhead closingTagOpener name :=
        isNamedTagAhead_eq (by simpa [closingTagOpener] using noLineFeed)
          (by simpa [closingTagOpener] using noReturn) related
      have opening : other.isNamedTagAhead ['<'] name = cursor.isNamedTagAhead ['<'] name :=
        isNamedTagAhead_eq (by simpa using noLineFeed) (by simpa using noReturn) related
      rw [closing, opening]

theorem ne_lineBreak_of_isQuote {quote : Char} (isQuote : kind.isQuote quote) :
    quote ≠ '\n' ∧ quote ≠ '\r' := by
  constructor <;> rintro rfl <;> cases kind <;> revert isQuote <;> decide

/-- An open literal ends at the carriage return of a pair if it ends at the line feed alone, and then
the line feed of the pair opens nothing; or else it goes on, and the pair does not end it either. -/
theorem exists_bodyStep_pair (isPair : same.ending = .pair)
    (isQuote : ∀ opened ∈ quote, kind.isQuote opened) (related : same.Relates cursor other)
    (ahead : cursor.ahead = '\n' :: rest)
    (aheadOther : other.ahead = '\r' :: '\n' :: same.ending.write rest) :
    ∃ between after, bodyStep kind name depth quote '\r' other = some (depth, between) ∧
      bodyStep kind name depth between '\n' other.advance = some (depth, after) ∧
      bodyStep kind name depth quote '\n' cursor = some (depth, after) := by
  have aheadNext : other.advance.ahead = '\n' :: same.ending.write rest := by
    rw [advance_of_ahead_cons aheadOther]
  have ordinary {place : Cursor} {character : Char} {later : List Char}
      (isBreak : character = '\n' ∨ character = '\r') (here : place.ahead = character :: later) :
      bodyStep kind name depth none character place = some (depth, none) := by
    refine bodyStep_of_ordinary ?_ ?_ here
    · rcases isBreak with rfl | rfl <;> decide
    · rcases isBreak with rfl | rfl <;> cases kind <;> rfl
  cases quote with
  | none =>
      exact ⟨none, none, ordinary (.inr rfl) aheadOther, ordinary (.inl rfl) aheadNext,
        ordinary (.inl rfl) ahead⟩
  | some quote =>
      obtain ⟨notLineFeed, notReturn⟩ := ne_lineBreak_of_isQuote (isQuote quote rfl)
      have notAfterReturn : (cursor.previous? == some '\r') = false :=
        beq_false_of_ne (same.not_afterReturn isPair related)
      have alone : cursor.endsLiteral quote = (quote != '`' && !cursor.isEscaped) := by
        simp [endsLiteral, continuesLine, isOn_of_ahead_cons ahead, notLineFeed.symm, isLineBreak,
          notAfterReturn]
      have atReturn : other.endsLiteral quote = (quote != '`' && !cursor.isEscaped) := by
        simp [endsLiteral, continuesLine, isOn_of_ahead_cons aheadOther, notReturn.symm, isLineBreak,
          isEscaped_eq related]
      have atLineFeed : other.advance.endsLiteral quote = false := by
        have afterReturn : other.advance.previous? = some '\r' := by
          rw [advance_of_ahead_cons aheadOther, previous?]
          rfl
        simp [endsLiteral, continuesLine, isOn_of_ahead_cons aheadNext, notLineFeed.symm, afterReturn]
      refine ⟨_, _, rfl, ?_, rfl⟩
      rw [atReturn, alone]
      cases quote != '`' && !cursor.isEscaped with
      | true => exact ordinary (.inl rfl) aheadNext
      | false =>
          show some (depth, if other.advance.endsLiteral quote then none else some quote) = _
          rw [atLineFeed]

/-- One character of the first source, and what is read for it in the second. -/
theorem seekBodyEnd_eq_of_step (noLineFeed : '\n' ∉ name) (noReturn : '\r' ∉ name)
    (isQuote : ∀ opened ∈ quote, kind.isQuote opened) (related : same.Relates cursor other)
    (ahead : cursor.ahead = character :: rest) {place : Cursor}
    (passes : Passes (same.ending.letters character) other place) :
    seekBodyEnd kind name other.ahead depth quote other =
      match bodyStep kind name depth quote character cursor with
      | none => other
      | some (depth, quote) => seekBodyEnd kind name place.ahead depth quote place := by
  have aheadOther := same.ahead_eq related
  rw [ahead, LineEnding.write_cons] at aheadOther
  by_cases single : same.ending.letters character = [character]
  · rw [single, List.singleton_append] at aheadOther
    rw [single] at passes
    have here := passes.unique (.one aheadOther)
    have sameCharacter : other.current? = cursor.current? := by
      rw [current?, aheadOther, current?, ahead]
      rfl
    rw [seekBodyEnd_of_ahead_cons aheadOther,
      bodyStep_eq noLineFeed noReturn sameCharacter related, here]
  · obtain ⟨isPair, rfl⟩ := LineEnding.pair_of_letters_ne single
    rw [isPair] at aheadOther passes
    have here : place = other.advance.advance := by
      cases passes with
      | next _ later =>
          cases later with
          | next _ later =>
              cases later
              rfl
    have aheadNext : other.advance.ahead = '\n' :: same.ending.write rest := by
      rw [advance_of_ahead_cons aheadOther, isPair]
      rfl
    obtain ⟨between, after, atReturn, atLineFeed, alone⟩ :=
      exists_bodyStep_pair isPair isQuote related ahead (by rw [aheadOther, isPair]; rfl)
    rw [seekBodyEnd_of_ahead_cons aheadOther, atReturn, alone, here]
    simp only
    rw [seekBodyEnd_of_ahead_cons aheadNext, atLineFeed]

theorem reads_seekBodyEnd (noLineFeed : '\n' ∉ name) (noReturn : '\r' ∉ name)
    (isQuote : ∀ opened ∈ quote, kind.isQuote opened) (related : same.Relates cursor other) :
    ∃ text, same.Reads text cursor other (seekBodyEnd kind name cursor.ahead depth quote cursor)
      (seekBodyEnd kind name other.ahead depth quote other) := by
  -- The induction is on the first source.  The second may take two steps for one of its characters.
  induction pending : cursor.ahead generalizing cursor other depth quote with
  | nil =>
      rw [(ahead_eq_nil_iff related).mpr pending]
      exact ⟨[], .done related⟩
  | cons character rest ih =>
      obtain ⟨place, passes, relatedNext⟩ := same.exists_step related pending
      have next : cursor.advance.ahead = rest := by rw [advance_of_ahead_cons pending]
      rw [← pending, seekBodyEnd_of_ahead_cons pending,
        seekBodyEnd_eq_of_step noLineFeed noReturn isQuote related pending passes]
      cases step : bodyStep kind name depth quote character cursor with
      | none => exact ⟨[], .done related⟩
      | some state =>
          have isQuoteNext : ∀ opened ∈ state.2, kind.isQuote opened := by
            intro opened isOpened
            rcases bodyStep_quote (step.trans (congrArg some (Prod.ext rfl isOpened))) with
              before | new
            · exact isQuote opened before
            · exact new
          obtain ⟨text, reads⟩ := ih isQuoteNext relatedNext next
          refine ⟨character :: text, .next pending ?_, ?_, ?_⟩
          · rw [next]
            exact reads.passes
          · rw [LineEnding.write_cons]
            exact passes.trans reads.passes'
          · simp only [next]
            exact reads.relates

end RawBodies

end Correspondence

end TemplateMarkup
