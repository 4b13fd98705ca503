import TemplateMarkup.Proofs.Markup.WholeTags

/-!
# String literals of scripts and style sheets

The string literals of a script or a style sheet can be told in one pass from its start, in which every
character is looked at once and nothing is looked back at.  The reader of raw bodies keeps only the open
quote and counts the backslashes behind it whenever a quote or a line break is ahead.  Both find the
same literals, so a body ends at the first closing tag outside of the literals of the pass.
-/

namespace TemplateMarkup

open CharacterClass

/-- What a pass over a script or a style sheet knows of string literals. -/
inductive Literal where
  | outside
  | inside (quote : Char)
  /-- The next character belongs to the literal, whatever it is. -/
  | escaping (quote : Char)
  /-- An escaped carriage return has been read, and a line feed would belong to it. -/
  | afterReturn (quote : Char)
  deriving DecidableEq

namespace Literal

/-- After a character of a literal that is not escaped. -/
def afterPlain (quote character : Char) : Literal :=
  if character == '\\' then .escaping quote
  else if character == quote || (quote != '`' && isLineBreak character) then .outside
  else .inside quote

def after (kind : RawKind) : Literal → Char → Literal
  | outside, character => if kind.isQuote character then .inside character else .outside
  | inside quote, character => afterPlain quote character
  | escaping quote, character => if character == '\r' then .afterReturn quote else .inside quote
  | afterReturn quote, character =>
      if character == '\n' then .inside quote else afterPlain quote character

/-- The pass over a text. -/
def read (kind : RawKind) (literal : Literal) (text : List Char) : Literal :=
  text.foldl (after kind) literal

def quote? : Literal → Option Char
  | outside => none
  | inside quote => some quote
  | escaping quote => some quote
  | afterReturn quote => some quote

end Literal

/-- A closing tag of the name starts here: its opener and the name, and after the name white space, `>`,
`/` or the end of the source. -/
def StartsClosingTag (name rest : List Char) : Prop :=
  ∃ after, rest = Cursor.closingTagOpener ++ name ++ after ∧
    ∀ character ∈ after.head?, isWhitespace character ∨ character = '>' ∨ character = '/'

/-- A body may end before the rest: the pass is outside of literals there, at a closing tag of the name. -/
def EndsBody (kind : RawKind) (name : List Char) (literal : Literal) (body rest : List Char) : Prop :=
  literal.read kind body = .outside ∧ StartsClosingTag name rest

/-- The body that the pass finds in a text: all before the first place where it may end, or everything
if there is no such place. -/
structure IsPassedBody (kind : RawKind) (name text body rest : List Char) : Prop where
  split : text = body ++ rest
  ends : rest = [] ∨ EndsBody kind name .outside body rest
  isFirst : ∀ shorter later, text = shorter ++ later → EndsBody kind name .outside shorter later →
    body.length ≤ shorter.length

/-- A text up to and including its first `>`, or all of it. -/
def throughAngle (text : List Char) : List Char :=
  text.takeWhile (· != '>') ++ (text.dropWhile (· != '>')).take 1

namespace Cursor

variable {kind : RawKind} {name rest text : List Char} {quote character : Char}
variable {cursor start stop : Cursor} {literal : Literal}

theorem isEscaped_advance (ahead : cursor.ahead = character :: rest) :
    cursor.advance.isEscaped = (character == '\\' && !cursor.isEscaped) := by
  rw [isEscaped, isEscaped, backslashesBehind, backslashesBehind, advance_of_ahead_cons ahead,
    List.takeWhile_cons]
  cases character == '\\' with
  | false => rfl
  | true =>
      rw [if_pos rfl, List.length_cons, Bool.true_and, Bool.eq_iff_iff]
      simp only [Bool.not_eq_true', beq_iff_eq, beq_eq_false_iff_ne]
      omega

theorem previous?_advance (ahead : cursor.ahead = character :: rest) :
    cursor.advance.previous? = some character := by
  rw [previous?, advance_of_ahead_cons ahead, List.head?_cons]

/-- What the pass knows agrees with what the reader finds by looking back.  Inside of a literal that
line breaks end, a carriage return is behind only if it was escaped. -/
def Tells (kind : RawKind) : Literal → Cursor → Prop
  | .outside, _ => True
  | .inside quote, cursor =>
      kind.isQuote quote ∧ cursor.isEscaped = false ∧
        (quote = '`' ∨ cursor.previous? ≠ some '\r')
  | .escaping quote, cursor => kind.isQuote quote ∧ cursor.isEscaped = true
  | .afterReturn quote, cursor =>
      kind.isQuote quote ∧ cursor.isEscaped = false ∧ cursor.previous? = some '\r'

/-- Neither a backslash nor a line break is a quote. -/
theorem ne_of_isQuote (isQuote : kind.isQuote quote) :
    quote ≠ '\\' ∧ quote ≠ '\n' ∧ quote ≠ '\r' := by
  refine ⟨?_, ?_, ?_⟩ <;> (rintro rfl; cases kind <;> cases isQuote)

theorem endsLiteral_of_ahead_cons (ahead : cursor.ahead = character :: rest) :
    cursor.endsLiteral quote =
      (character == quote && !cursor.isEscaped ||
        (quote != '`' && isLineBreak character &&
          !((character == '\n' && cursor.previous? == some '\r') || cursor.isEscaped))) := by
  simp only [endsLiteral, continuesLine, isOn_of_ahead_cons ahead]

theorem tells_afterPlain (isQuote : kind.isQuote quote) (ahead : cursor.ahead = character :: rest)
    (notEscaped : cursor.isEscaped = false)
    (noReturn : quote = '`' ∨ cursor.previous? ≠ some '\r' ∨ character ≠ '\n') :
    Tells kind (Literal.afterPlain quote character) cursor.advance ∧
      (Literal.afterPlain quote character).quote? =
        if cursor.endsLiteral quote then none else some quote := by
  have escapes := isEscaped_advance ahead
  rw [endsLiteral_of_ahead_cons ahead, notEscaped]
  rw [notEscaped] at escapes
  unfold Literal.afterPlain
  by_cases isBackslash : character = '\\'
  · subst isBackslash
    have notQuote : ('\\' == quote) = false := beq_false_of_ne (ne_of_isQuote isQuote).1.symm
    have noBreak : isLineBreak '\\' = false := rfl
    simp only [notQuote, noBreak, beq_self_eq_true, if_true]
    exact ⟨⟨isQuote, escapes⟩, by simp [Literal.quote?]⟩
  rw [if_neg (by simpa using isBackslash)]
  by_cases isClosing : character = quote
  · simp [isClosing, Literal.quote?, Tells]
  have notQuote : (character == quote) = false := beq_false_of_ne isClosing
  cases isBreak : quote != '`' && isLineBreak character with
  | true =>
      have notBacktick := bne_iff_ne.mp (Bool.and_eq_true _ _ ▸ isBreak).1
      have notContinued : (character == '\n' && cursor.previous? == some '\r') = false := by
        rw [Bool.eq_false_iff, ne_eq, Bool.and_eq_true, beq_iff_eq, beq_iff_eq]
        rintro ⟨isLineFeed, isReturn⟩
        rcases noReturn with isBacktick | notReturn | notLineFeed
        · exact notBacktick isBacktick
        · exact notReturn isReturn
        · exact notLineFeed isLineFeed
      simp [notContinued, Literal.quote?, Tells]
  | false =>
      simp only [notQuote, Bool.false_and, Bool.or_false, Bool.false_eq_true, if_false]
      refine ⟨⟨isQuote, ?_, ?_⟩, rfl⟩
      · rw [escapes, beq_false_of_ne isBackslash, Bool.false_and]
      · rw [previous?_advance ahead]
        by_cases isBacktick : quote = '`'
        · exact .inl isBacktick
        · rw [bne_iff_ne.mpr isBacktick, Bool.true_and] at isBreak
          refine .inr fun isReturn => ?_
          rw [Option.some.inj isReturn] at isBreak
          cases isBreak

/-- An escaped character does not end its literal. -/
theorem endsLiteral_of_isEscaped (isEscaped : cursor.isEscaped = true) (quote : Char) :
    cursor.endsLiteral quote = false := by
  simp [endsLiteral, continuesLine, isEscaped]

/-- What one character changes. -/
theorem tells_after (tells : Tells kind literal cursor) (ahead : cursor.ahead = character :: rest) :
    Tells kind (literal.after kind character) cursor.advance ∧
      ∀ quote ∈ literal.quote?, (literal.after kind character).quote? =
        if cursor.endsLiteral quote then none else some quote := by
  cases literal with
  | outside =>
      refine ⟨?_, nofun⟩
      rw [Literal.after]
      split
      · next isQuote =>
          obtain ⟨notBackslash, -, notReturn⟩ := ne_of_isQuote isQuote
          refine ⟨isQuote, ?_, .inr ?_⟩
          · rw [isEscaped_advance ahead, beq_false_of_ne notBackslash, Bool.false_and]
          · rw [previous?_advance ahead]
            exact fun isReturn => notReturn (Option.some.inj isReturn)
      · trivial
  | inside quote =>
      obtain ⟨isQuote, notEscaped, noReturn⟩ := tells
      obtain ⟨tells, stays⟩ := tells_afterPlain isQuote ahead notEscaped (noReturn.imp_right .inl)
      refine ⟨tells, ?_⟩
      rintro other ⟨⟩
      exact stays
  | escaping quote =>
      obtain ⟨isQuote, isEscaped⟩ := tells
      have plainNext : cursor.advance.isEscaped = false := by
        rw [isEscaped_advance ahead, isEscaped, Bool.not_true, Bool.and_false]
      rw [Literal.after]
      by_cases isReturn : character = '\r'
      · rw [if_pos (by simpa using isReturn)]
        refine ⟨⟨isQuote, plainNext, by rw [previous?_advance ahead, isReturn]⟩, ?_⟩
        rintro other ⟨⟩
        rw [endsLiteral_of_isEscaped isEscaped]
        rfl
      · rw [if_neg (by simpa using isReturn)]
        refine ⟨⟨isQuote, plainNext, .inr ?_⟩, ?_⟩
        · rw [previous?_advance ahead]
          exact fun same => isReturn (Option.some.inj same)
        · rintro other ⟨⟩
          rw [endsLiteral_of_isEscaped isEscaped]
          rfl
  | afterReturn quote =>
      obtain ⟨isQuote, notEscaped, isReturn⟩ := tells
      rw [Literal.after]
      by_cases isLineFeed : character = '\n'
      · subst isLineFeed
        rw [if_pos (by rfl)]
        refine ⟨⟨isQuote, ?_, .inr ?_⟩, ?_⟩
        · rw [isEscaped_advance ahead]
          rfl
        · rw [previous?_advance ahead]
          nofun
        · have notQuote : ('\n' == quote) = false := beq_false_of_ne (ne_of_isQuote isQuote).2.1.symm
          rintro other ⟨⟩
          rw [endsLiteral_of_ahead_cons ahead, notQuote, isReturn]
          simp [Literal.quote?]
      · rw [if_neg (by simpa using isLineFeed)]
        obtain ⟨tells, stays⟩ :=
          tells_afterPlain isQuote ahead notEscaped (.inr (.inr isLineFeed))
        refine ⟨tells, ?_⟩
        rintro other ⟨⟩
        exact stays

theorem quote?_eq_none_iff : literal.quote? = none ↔ literal = .outside := by
  cases literal <;> simp [Literal.quote?]

theorem isNamedTagAhead_iff :
    cursor.isNamedTagAhead closingTagOpener name ↔ StartsClosingTag name cursor.ahead := by
  rw [isNamedTagAhead, Bool.and_eq_true, startsWith, List.isPrefixOf_iff_prefix]
  constructor
  · rintro ⟨⟨after, ahead⟩, mayFollow⟩
    refine ⟨after, ahead.symm, ?_⟩
    rw [← ahead, List.drop_left] at mayFollow
    intro character isFirst
    rw [Option.mem_def.mp isFirst] at mayFollow
    simpa [or_assoc] using mayFollow
  · rintro ⟨after, ahead, mayFollow⟩
    refine ⟨⟨after, ahead.symm⟩, ?_⟩
    rw [ahead, List.drop_left]
    cases isFirst : after.head? with
    | none => rfl
    | some character => simpa [or_assoc] using mayFollow character isFirst

theorem isNamedTagAhead_of_closingTag (ahead : cursor.ahead = writeClosingTag name ++ rest) :
    cursor.isNamedTagAhead closingTagOpener name :=
  isNamedTagAhead_iff.mpr
    ⟨'>' :: rest, by simp [ahead, writeClosingTag, closingTagOpener], by simp⟩

/-- The reader goes on with what the pass knows, unless the body ends here. -/
theorem bodyStep_eq_after (foreign : kind ≠ .nested) (tells : Tells kind literal cursor)
    (ahead : cursor.ahead = character :: rest)
    (goesOn : ¬ EndsBody kind name literal [] cursor.ahead) :
    bodyStep kind name 0 literal.quote? character cursor =
      some (0, (literal.after kind character).quote?) := by
  obtain ⟨-, next⟩ := tells_after tells ahead
  unfold bodyStep
  cases open? : literal.quote? with
  | some quote => rw [next quote open?]
  | none =>
      obtain rfl := quote?_eq_none_iff.mp open?
      have notClosing : ¬ cursor.isNamedTagAhead closingTagOpener name := fun isAhead =>
        goesOn ⟨rfl, isNamedTagAhead_iff.mp isAhead⟩
      simp only [Literal.after, if_neg notClosing, foreign, false_and, if_false]
      cases kind.isQuote character <;> rfl

/-- From wherever the pass stands, the reader comes to the first place where the body may end. -/
theorem passes_seekBodyEnd (foreign : kind ≠ .nested) (name : List Char)
    (tells : Tells kind literal cursor) :
    ∃ body, Passes body cursor (seekBodyEnd kind name cursor.ahead 0 literal.quote? cursor) ∧
      ((seekBodyEnd kind name cursor.ahead 0 literal.quote? cursor).ahead = [] ∨
        EndsBody kind name literal body
          (seekBodyEnd kind name cursor.ahead 0 literal.quote? cursor).ahead) ∧
      ∀ shorter later, cursor.ahead = shorter ++ later → EndsBody kind name literal shorter later →
        body.length ≤ shorter.length := by
  induction pending : cursor.ahead generalizing cursor literal with
  | nil => exact ⟨[], .done cursor, .inl pending, fun _ _ _ _ => Nat.zero_le _⟩
  | cons character rest ih =>
      rw [← pending, seekBodyEnd_of_ahead_cons pending]
      by_cases ends : EndsBody kind name literal [] cursor.ahead
      · have isOutside : literal = .outside := ends.1
        have stops : bodyStep kind name 0 literal.quote? character cursor = none := by
          have notQuote : kind.isQuote character = false := by
            obtain ⟨after, split, -⟩ := ends.2
            obtain rfl : character = '<' := by
              have first := congrArg List.head? (pending.symm.trans split)
              exact Option.some.inj first
            cases kind <;> rfl
          rw [isOutside, Literal.quote?, bodyStep, notQuote,
            isNamedTagAhead_iff.mpr ends.2]
          rfl
        rw [stops]
        exact ⟨[], .done cursor, .inr ends, fun _ _ _ _ => Nat.zero_le _⟩
      · rw [bodyStep_eq_after foreign tells pending ends]
        have next : cursor.advance.ahead = rest := by rw [advance_of_ahead_cons pending]
        obtain ⟨body, passes, isEnd, isFirst⟩ := ih (tells_after tells pending).1 next
        rw [← next] at passes isEnd
        refine ⟨character :: body, .next pending passes, isEnd, ?_⟩
        intro shorter later split mayEnd
        cases shorter with
        | nil => exact absurd (split ▸ mayEnd) ends
        | cons first shorter =>
            obtain ⟨rfl, splitRest⟩ := List.cons.inj (pending.symm.trans split)
            exact Nat.succ_le_succ (isFirst shorter later splitRest mayEnd)

theorem exists_ahead_of_isOn {belongs : Char → Bool} (isOn : cursor.isOn belongs) :
    ∃ character rest, cursor.ahead = character :: rest ∧ belongs character := by
  cases ahead : cursor.ahead with
  | nil =>
      rw [isOn_of_ahead_nil ahead] at isOn
      cases isOn
  | cons character rest => exact ⟨character, rest, rfl, (isOn_of_ahead_cons ahead).symm.trans isOn⟩

theorem throughAngle_of_split {text rest : List Char} (notAngle : '>' ∉ text) :
    throughAngle (text ++ '>' :: rest) = text ++ ['>'] := by
  have inText : ∀ character ∈ text, (character != '>') = true := fun character member =>
    bne_iff_ne.mpr fun isAngle => notAngle (isAngle ▸ member)
  rw [throughAngle, List.takeWhile_append_of_pos inText, List.dropWhile_append_of_pos inText]
  simp

theorem throughAngle_eq_self {text : List Char} (notAngle : '>' ∉ text) :
    throughAngle text = text := by
  have inText : ∀ character ∈ text, (character != '>') = true := fun character member =>
    bne_iff_ne.mpr fun isAngle => notAngle (isAngle ▸ member)
  rw [throughAngle, List.takeWhile_eq_self_iff.mpr inText, List.dropWhile_eq_nil_iff.mpr inText]
  simp

/-- A cursor that has passed everything up to the first `>` passes that as well. -/
theorem Passes.throughAngle (passes : Passes text start stop) (notAngle : '>' ∉ text)
    (ends : stop.ahead = [] ∨ stop.isOn (· == '>')) :
    Passes (throughAngle start.ahead) start stop.advance := by
  rw [passes.ahead_eq]
  rcases ends with atEnd | isOn
  · rw [atEnd, List.append_nil, throughAngle_eq_self notAngle, advance_of_ahead_nil atEnd]
    exact passes
  · obtain ⟨character, rest, ahead, isAngle⟩ := exists_ahead_of_isOn isOn
    obtain rfl : character = '>' := beq_iff_eq.mp isAngle
    rw [ahead, throughAngle_of_split notAngle]
    exact passes.trans (.one ahead)

/-- A closing tag is passed over up to and including its `>`, and at the end of the source there is
nothing to pass. -/
theorem passes_readClosingTag (ends : cursor.ahead = [] ∨ cursor.isClosingTagAhead) :
    Passes (throughAngle cursor.ahead) cursor cursor.readClosingTag.2 := by
  have opener : ∃ text, Passes text cursor (cursor.skip closingTagOpener) ∧ '>' ∉ text := by
    rcases ends with atEnd | isAhead
    · refine ⟨[], ?_, List.not_mem_nil⟩
      rw [skip, if_neg (by simp [startsWith, atEnd, closingTagOpener])]
      exact .done cursor
    · exact ⟨closingTagOpener, passes_skip isAhead, by decide⟩
  obtain ⟨first, passesFirst, notInFirst⟩ := opener
  obtain ⟨name, passesName⟩ := leadsTo_readName (cursor.skip closingTagOpener)
  obtain ⟨later, passesLater⟩ :=
    leadsTo_seek (cursor.skip closingTagOpener).readName.2 fun place => place.isOn (· == '>')
  have notInName : '>' ∉ name := fun member =>
    absurd (passesName.belongs_of_skipWhile _ member) (by decide)
  have notInLater : '>' ∉ later := fun member =>
    absurd (passesLater.belongs_of_seek (fun ahead => by
      rw [isOn_of_ahead_cons ahead, Bool.not_not]) _ member) (by decide)
  exact ((passesFirst.trans passesName).trans passesLater).throughAngle (by simp_all)
    (ahead_seek_eq_nil_or_halts _ _)

/-- A script or a style sheet is read up to the first closing tag of its name outside of string
literals, and its closing tag up to the next `>`. -/
theorem readRawBody_eq_passed (cursor : Cursor) (name : List Char) (foreign : kind ≠ .nested) :
    ∃ body rest, IsPassedBody kind name cursor.ahead body rest ∧
      (cursor.readRawBody kind name).1 = ⟨String.ofList body, cursor.position⟩ ∧
      Passes (body ++ throughAngle rest) cursor (cursor.readRawBody kind name).2 := by
  have atStart : Tells kind .outside cursor := trivial
  obtain ⟨body, passes, ends, isFirst⟩ := passes_seekBodyEnd foreign name atStart
  have isEnd : Passes body cursor (cursor.bodyEnd kind name) := passes
  refine ⟨body, (cursor.bodyEnd kind name).ahead, ⟨passes.ahead_eq, ends, isFirst⟩, ?_, ?_⟩
  · rw [readRawBody, ← isEnd.textSince_eq]
    rfl
  · rw [readRawBody_snd]
    exact isEnd.trans (passes_readClosingTag
      (or_iff_not_imp_left.mpr (isClosingTagAhead_bodyEnd cursor kind name)))

/-- The first closing tag stands behind an escaped line ending of two characters, inside of a literal,
and a backslash takes the meaning of the quote after it away. -/
theorem readRawBody_eq_passed_brokenLine :
    RawKind.script ≠ .nested ∧
      let cursor := atStart "\"a\\\r\n</script>\\\"\" </script/ b>c" .start
      (∃ body rest, IsPassedBody .script "script".toList cursor.ahead body rest ∧
        (cursor.readRawBody .script "script".toList).1 =
          ⟨String.ofList body, cursor.position⟩ ∧
        Passes (body ++ throughAngle rest) cursor
          (cursor.readRawBody .script "script".toList).2) ∧
      (cursor.readRawBody .script "script".toList).1.text = "\"a\\\r\n</script>\\\"\" " ∧
      (cursor.readRawBody .script "script".toList).2.ahead = ['c'] :=
  ⟨by decide, readRawBody_eq_passed _ _ (by decide), by decide +kernel, by decide +kernel⟩

end Cursor

end TemplateMarkup
