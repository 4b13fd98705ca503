import TemplateMarkup.Proofs.Markup.Literals

/-!
# Opening tags in one pass

An opening tag can be read in one pass from its start, in which every character is looked at once, with
nothing looked back at and nothing looked ahead to.  It ends at the first `>` outside of quoted values,
and a quote opens a value only behind an equals sign that belongs to an attribute.

The reader of tags has a reader for each part of a tag, and these stop at different characters.  They
find what the pass finds.
-/

namespace TemplateMarkup

open CharacterClass

/-- An attribute as it stands in a tag: its name together with the sigil, and its value. -/
structure AttributeText where
  name : List Char
  value : Option (List Char)
  deriving DecidableEq

/-- A colon or a hash sign in front makes an attribute a directive. -/
def isSigil (character : Char) : Bool :=
  character == ':' || character == '#'

namespace AttributeText

/-- A backtick quotes the values of directives only. -/
def opensQuote (name : List Char) (character : Char) : Bool :=
  isQuote character && (character != '`' || name.head?.any isSigil)

/-- The attribute without its position. -/
def toAttribute (written : AttributeText) : Attribute :=
  match written.name.head?.filter isSigil with
  | none => .plain ⟨String.ofList written.name, written.value.map String.ofList, .start⟩
  | some sigil => .directive (Attribute.directiveOf sigil written.name.tail written.value .start)

end AttributeText

/-- What a pass over an opening tag knows. -/
inductive TagMode where
  | tagName
  | between
  /-- In the name of an attribute. -/
  | label (name : List Char)
  /-- After white space behind the name of an attribute. -/
  | afterLabel (name : List Char)
  | afterEquals (name : List Char)
  | bare (name value : List Char)
  | quoted (quote : Char) (name value : List Char)
  /-- In a quoted value, after a backslash that hides the next character. -/
  | hidden (quote : Char) (name value : List Char)
  deriving DecidableEq

/-- What a pass over an opening tag has found. -/
structure PassedTag where
  attributes : List AttributeText
  /-- What stands before the `>` of the tag. -/
  inner : List Char
  /-- The source from this `>` on.  There is nothing if the tag is cut off. -/
  rest : List Char
  deriving DecidableEq

namespace TagMode

def isQuoted : TagMode → Bool
  | quoted _ _ _ => true
  | hidden _ _ _ => true
  | _ => false

/-- The mode after a character that belongs to the attribute at hand, or to the name of the tag. -/
def continued? : TagMode → Char → Option TagMode
  | tagName, character => if isNameCharacter character then some tagName else none
  | between, _ => none
  | label written, character =>
      if isNameCharacter character then some (label (written ++ [character]))
      else if isWhitespace character then some (afterLabel written)
      else if character = '=' then some (afterEquals written)
      else none
  | afterLabel written, character =>
      if isWhitespace character then some (afterLabel written)
      else if character = '=' then some (afterEquals written)
      else none
  | afterEquals written, character =>
      if isWhitespace character then some (afterEquals written)
      else if AttributeText.opensQuote written character then some (quoted character written [])
      else if isUnquotedValueCharacter character then some (bare written [character])
      else none
  | bare written value, character =>
      if isUnquotedValueCharacter character then some (bare written (value ++ [character])) else none
  | quoted quote written value, character =>
      if character = quote then none
      else if character = '\\' then some (hidden quote written (value ++ [character]))
      else some (quoted quote written (value ++ [character]))
  | hidden quote written value, character => some (quoted quote written (value ++ [character]))

/-- The mode after a character that belongs to nothing before it. -/
def outset (character : Char) : TagMode :=
  if isNameCharacter character then label [character] else between

def next (mode : TagMode) (character : Char) : TagMode :=
  (mode.continued? character).getD (outset character)

/-- The attribute at hand, if it ends before the character that follows, or at the end of the source.
The slash of `/>` is not part of a value. -/
def pending (following : Option Char) : TagMode → List AttributeText
  | tagName => []
  | between => []
  | label written => [⟨written, none⟩]
  | afterLabel written => [⟨written, none⟩]
  | afterEquals written => [⟨written, following.map fun _ => []⟩]
  | bare written value =>
      if following = some '>' ∧ value.getLast? = some '/' then [⟨written, some value.dropLast⟩]
      else [⟨written, some value⟩]
  | quoted _ written value => [⟨written, some value⟩]
  | hidden _ written value => [⟨written, some value⟩]

/-- The attribute that a character brings to an end. -/
def ended (mode : TagMode) (character : Char) : List AttributeText :=
  if (mode.continued? character).isSome then [] else mode.pending (some character)

/-- The pass from some mode on. -/
def pass : TagMode → List Char → PassedTag
  | mode, [] => ⟨mode.pending none, [], []⟩
  | mode, character :: text =>
      if character = '>' ∧ mode.isQuoted = false then
        ⟨mode.pending (some '>'), [], character :: text⟩
      else
        let later := (mode.next character).pass text
        ⟨mode.ended character ++ later.attributes, character :: later.inner, later.rest⟩

/-- The mode after a text. -/
def after (mode : TagMode) (text : List Char) : TagMode :=
  text.foldl next mode

/-- A tag is divided before its first `>` outside of quoted values.  If there is none, nothing is left. -/
structure EndsAt (mode : TagMode) (inner rest : List Char) : Prop where
  angle : ∀ character ∈ rest.head?, character = '>' ∧ (mode.after inner).isQuoted = false
  isFirst : ∀ shorter later, inner = shorter ++ '>' :: later → (mode.after shorter).isQuoted

variable {mode continued : TagMode} {character : Char} {text : List Char}

theorem pass_angle (notQuoted : mode.isQuoted = false) :
    mode.pass ('>' :: text) = ⟨mode.pending (some '>'), [], '>' :: text⟩ := by
  rw [pass, if_pos ⟨rfl, notQuoted⟩]

theorem pass_cons (goesOn : character = '>' → mode.isQuoted) :
    mode.pass (character :: text) =
      ⟨mode.ended character ++ ((mode.next character).pass text).attributes,
        character :: ((mode.next character).pass text).inner,
        ((mode.next character).pass text).rest⟩ := by
  rw [pass, if_neg fun ends => by simp [goesOn ends.1] at ends]

theorem next_of_continued (continues : mode.continued? character = some continued) :
    mode.next character = continued := by
  rw [next, continues, Option.getD_some]

theorem ended_of_continued (continues : mode.continued? character = some continued) :
    mode.ended character = [] := by
  rw [ended, continues, Option.isSome_some, if_pos rfl]

theorem next_of_ends (ends : mode.continued? character = none) :
    mode.next character = outset character := by
  rw [next, ends, Option.getD_none]

theorem ended_of_ends (ends : mode.continued? character = none) :
    mode.ended character = mode.pending (some character) := by
  rw [ended, ends, Option.isSome_none, if_neg Bool.false_ne_true]

/-- The pass divides a text before its first `>` outside of quoted values. -/
theorem pass_spec (mode : TagMode) (text : List Char) :
    (mode.pass text).inner ++ (mode.pass text).rest = text ∧
      mode.EndsAt (mode.pass text).inner (mode.pass text).rest := by
  induction text generalizing mode with
  | nil => exact ⟨rfl, nofun, by simp [pass]⟩
  | cons character text ih =>
      by_cases ends : character = '>' ∧ mode.isQuoted = false
      · obtain ⟨rfl, notQuoted⟩ := ends
        rw [pass_angle notQuoted]
        refine ⟨rfl, ?_, by simp⟩
        rintro character ⟨⟩
        exact ⟨rfl, notQuoted⟩
      · have goesOn : character = '>' → mode.isQuoted := fun isAngle =>
          Bool.not_eq_false _ ▸ fun notQuoted => ends ⟨isAngle, notQuoted⟩
        obtain ⟨split, angle, isFirst⟩ := ih (mode.next character)
        rw [pass_cons goesOn]
        refine ⟨congrArg (character :: ·) split, angle, fun shorter later isSplit => ?_⟩
        cases shorter with
        | nil => exact goesOn (List.cons.inj isSplit).1
        | cons first shorter =>
            obtain ⟨rfl, splitRest⟩ := List.cons.inj isSplit
            exact isFirst shorter later splitRest

end TagMode

namespace Cursor

variable {mode mode' mode'' : TagMode} {text rest : List Char} {character : Char}
variable {written written' : List AttributeText} {cursor start middle stop place : Cursor}

/-- Reading from one cursor to the other gives what the pass gives, and the pass goes on in another
mode.  A slash directly before a `>` is left for the end of the tag. -/
def Yields (mode : TagMode) (written : List AttributeText) (mode' : TagMode) (start stop : Cursor) :
    Prop :=
  ∃ text, Passes text start stop ∧
    (text.getLast? = some '/' → stop.isOn (· == '>') = false) ∧
    mode.pass start.ahead =
      ⟨written ++ (mode'.pass stop.ahead).attributes, text ++ (mode'.pass stop.ahead).inner,
        (mode'.pass stop.ahead).rest⟩

namespace Yields

theorem trans (first : Yields mode written mode' start middle)
    (second : Yields mode' written' mode'' middle stop) :
    Yields mode (written ++ written') mode'' start stop := by
  obtain ⟨text, passes, noSlash, passed⟩ := first
  obtain ⟨text', passes', noSlash', passed'⟩ := second
  refine ⟨text ++ text', passes.trans passes', ?_, ?_⟩
  · intro isLast
    cases passes' with
    | done => exact noSlash (by simpa using isLast)
    | next => exact noSlash' (by simpa using isLast)
  · rw [passed, passed']
    simp [List.append_assoc]

theorem next (ahead : start.ahead = character :: rest) (goesOn : character = '>' → mode.isQuoted)
    (notSlash : character ≠ '/') :
    Yields mode (mode.ended character) (mode.next character) start start.advance := by
  have aheadNext : start.advance.ahead = rest := by rw [advance_of_ahead_cons ahead]
  refine ⟨[character], .one ahead, ?_, ?_⟩
  · intro isLast
    exact absurd (Option.some.inj isLast) notSlash
  · rw [ahead, aheadNext, TagMode.pass_cons goesOn]
    rfl

/-- A pass leaves an attribute behind where nothing continues it. -/
theorem leave (notQuoted : mode.isQuoted = false)
    (ends : ∀ character ∈ cursor.current?, mode.continued? character = none) :
    Yields mode (mode.pending cursor.current?) .between cursor cursor := by
  refine ⟨[], .done cursor, nofun, ?_⟩
  rw [current?] at ends ⊢
  cases ahead : cursor.ahead with
  | nil => simp [TagMode.pass, TagMode.pending]
  | cons character rest =>
      have ends : mode.continued? character = none := ends character (by simp [ahead])
      have nothing : TagMode.between.continued? character = none := rfl
      by_cases isAngle : character = '>'
      · subst isAngle
        rw [TagMode.pass_angle notQuoted, TagMode.pass_angle rfl]
        simp [TagMode.pending]
      · rw [TagMode.pass_cons fun same => absurd same isAngle,
          TagMode.pass_cons fun same => absurd same isAngle, TagMode.next_of_ends ends,
          TagMode.ended_of_ends ends, TagMode.next_of_ends nothing, TagMode.ended_of_ends nothing]
        simp [TagMode.pending]

/-- The slash of `/>` ends a value that stands without quotes. -/
theorem leave_value {name value : List Char} (ahead : cursor.ahead = '/' :: '>' :: rest)
    (continues : mode.continued? '/' = some (.bare name (value ++ ['/']))) :
    Yields mode [⟨name, some value⟩] .between cursor cursor := by
  have nothing : TagMode.between.continued? '/' = none := rfl
  refine ⟨[], .done cursor, nofun, ?_⟩
  have slashPassed {mode : TagMode} : '/' = '>' → mode.isQuoted := fun same => absurd same (by decide)
  rw [ahead, TagMode.pass_cons slashPassed, TagMode.next_of_continued continues,
    TagMode.ended_of_continued continues, TagMode.pass_angle rfl, TagMode.pass_cons slashPassed,
    TagMode.next_of_ends nothing, TagMode.ended_of_ends nothing,
    show TagMode.outset '/' = .between from rfl, TagMode.pass_angle rfl]
  simp [TagMode.pending]

/-- A passage on which no attribute ends. -/
theorem of_passes (modes : List Char → TagMode) (passes : Passes text start stop)
    (steps : ∀ {read character rest place}, text = read ++ character :: rest →
      Passes read start place → (character = '>' → (modes read).isQuoted) ∧
        (modes read).next character = modes (read ++ [character]) ∧
          (modes read).ended character = [])
    (noSlash : text.getLast? = some '/' → stop.isOn (· == '>') = false) :
    Yields (modes []) [] (modes text) start stop := by
  refine ⟨text, passes, noSlash, ?_⟩
  clear noSlash
  induction passes generalizing modes with
  | done => rfl
  | @next character rest text start stop ahead _ ih =>
      obtain ⟨goesOn, nextMode, endsNone⟩ := steps (List.nil_append _).symm (.done start)
      have aheadNext : start.advance.ahead = rest := by rw [advance_of_ahead_cons ahead]
      have later := ih (fun read => modes (character :: read)) fun split passed => by
        have step := steps (by rw [split, List.cons_append]) (.next ahead passed)
        rwa [List.cons_append] at step
      rw [ahead, TagMode.pass_cons goesOn, nextMode, endsNone, ← aheadNext]
      exact congrArg (fun passed : PassedTag =>
        (⟨[] ++ passed.attributes, character :: passed.inner, passed.rest⟩ : PassedTag)) later

end Yields

theorem isOn_of_mem_current? {belongs : Char → Bool} (isNext : character ∈ cursor.current?) :
    cursor.isOn belongs = belongs character := by
  rw [isOn, Option.mem_def.mp isNext, Option.any_some]

section Seeking

variable {halts : Cursor → Bool}

/-- If the end `/>` is not passed over, its slash is not either. -/
theorem Passes.noSlash (passes : Passes text cursor (cursor.seek halts))
    (halting : ∀ {place : Cursor}, place.isSelfClosingEndAhead → halts place)
    (isLast : text.getLast? = some '/') : (cursor.seek halts).isOn (· == '>') = false := by
  obtain ⟨read, split⟩ := List.getLast?_eq_some_iff.mp isLast
  obtain ⟨place, passed, aheadPlace⟩ : ∃ place, Passes read cursor place ∧
      place.ahead = '/' :: (cursor.seek halts).ahead := by
    refine exists_passes ?_
    rw [passes.ahead_eq, split, List.append_assoc]
    rfl
  rw [Bool.eq_false_iff]
  intro isOn
  obtain ⟨angle, after, ahead, isAngle⟩ := exists_ahead_of_isOn isOn
  obtain rfl : angle = '>' := beq_iff_eq.mp isAngle
  rw [ahead] at aheadPlace
  have halted := halting (isSelfClosingEndAhead_of_ahead aheadPlace)
  rw [passes.not_halts split passed] at halted
  cases halted

/-- Characters of a class are passed over. -/
theorem exists_yields_skipWhile (cursor : Cursor) (belongs : Char → Bool)
    (modes : List Char → TagMode) (noSlash : belongs '/' = false) (noAngle : belongs '>' = false)
    (continues : ∀ read character, belongs character →
      (modes read).continued? character = some (modes (read ++ [character]))) :
    ∃ text, Passes text cursor (cursor.skipWhile belongs) ∧
      (∀ character ∈ text, belongs character) ∧
      Yields (modes []) [] (modes text) cursor (cursor.skipWhile belongs) := by
  obtain ⟨text, passes⟩ := leadsTo_seek cursor fun place => !place.isOn belongs
  have inClass := passes.belongs_of_skipWhile
  refine ⟨text, passes, inClass, .of_passes modes passes (fun {read character _ _} split _ => ?_) ?_⟩
  · have belongsTo := inClass character (by simp [split])
    have step := continues read character belongsTo
    exact ⟨fun isAngle => (Bool.false_ne_true (noAngle.symm.trans (isAngle ▸ belongsTo))).elim,
      TagMode.next_of_continued step, TagMode.ended_of_continued step⟩
  · intro isLast
    have belongsTo := inClass '/' (List.mem_of_getLast? isLast)
    exact (Bool.false_ne_true (noSlash.symm.trans belongsTo)).elim

theorem not_isOn_skipWhile (cursor : Cursor) (belongs : Char → Bool) :
    (cursor.skipWhile belongs).isOn belongs = false := by
  rcases ahead_seek_eq_nil_or_halts cursor fun place => !place.isOn belongs with atEnd | halted
  · exact isOn_of_ahead_nil atEnd
  · exact (Bool.not_eq_true' _).mp halted

end Seeking

theorem backslashesAtEnd_concat (text : List Char) (character : Char) :
    backslashesAtEnd (text ++ [character]) =
      if character = '\\' then backslashesAtEnd text + 1 else 0 := by
  simp only [backslashesAtEnd, List.reverse_append, List.reverse_singleton, List.singleton_append,
    List.takeWhile_cons, beq_iff_eq]
  split <;> rfl

/-- Inside of quotes, an odd number of backslashes hides the next character. -/
def quotedMode (quote : Char) (name value : List Char) : TagMode :=
  if backslashesAtEnd value % 2 = 1 then .hidden quote name value else .quoted quote name value

theorem isQuoted_quotedMode (quote : Char) (name value : List Char) :
    (quotedMode quote name value).isQuoted := by
  unfold quotedMode
  split <;> rfl

theorem pending_quotedMode (quote : Char) (name value : List Char) (following : Option Char) :
    (quotedMode quote name value).pending following = [⟨name, some value⟩] := by
  unfold quotedMode
  split <;> rfl

theorem continued?_quotedMode {quote : Char} {name value : List Char}
    (isInside : backslashesAtEnd value % 2 = 1 ∨ character ≠ quote) :
    (quotedMode quote name value).continued? character =
      some (quotedMode quote name (value ++ [character])) := by
  unfold quotedMode
  rw [backslashesAtEnd_concat]
  by_cases isHidden : backslashesAtEnd value % 2 = 1
  · rw [if_pos isHidden, if_neg (by split <;> omega)]
    rfl
  · rw [if_neg isHidden, TagMode.continued?, if_neg (isInside.resolve_left isHidden)]
    by_cases isBackslash : character = '\\'
    · rw [if_pos isBackslash, if_pos isBackslash, if_pos (by omega)]
    · rw [if_neg isBackslash, if_neg isBackslash, if_neg (by omega)]

theorem isQuote_spec {quote : Char} (isQuote : CharacterClass.isQuote quote) :
    quote ≠ '\\' ∧ quote ≠ '/' ∧ quote ≠ '>' ∧ isNameCharacter quote = false := by
  simp only [CharacterClass.isQuote, Bool.or_eq_true, beq_iff_eq] at isQuote
  rcases isQuote with (rfl | rfl) | rfl <;> decide

def endsQuotedValue (quote : Char) (place : Cursor) : Bool :=
  place.isOn (· == quote) && !place.isEscaped

/-- A quoted value is read up to the quote that is not hidden, or to the end of the source. -/
theorem yields_readQuotedValue {quote : Char} (name : List Char)
    (isQuote : CharacterClass.isQuote quote) (fresh : cursor.backslashesBehind = 0) :
    Yields (.quoted quote name []) [⟨name, some (cursor.readQuotedValue quote).1⟩] .between cursor
      (cursor.readQuotedValue quote).2 := by
  obtain ⟨notBackslash, notSlash, notAngle, notName⟩ := isQuote_spec isQuote
  obtain ⟨text, passes⟩ := leadsTo_seek cursor (endsQuotedValue quote)
  have ends := ahead_seek_eq_nil_or_halts cursor (endsQuotedValue quote)
  have escaped {read : List Char} {place : Cursor} (passed : Passes read cursor place) :
      place.isEscaped = (backslashesAtEnd read % 2 == 1) := by
    rw [isEscaped, backslashesBehind_of_passes passed fresh]
  have inside : Yields (quotedMode quote name []) [] (quotedMode quote name text) cursor
      (cursor.seek (endsQuotedValue quote)) := by
    refine .of_passes (quotedMode quote name) passes (fun {read character _ _} split passed => ?_) ?_
    · have isInside : backslashesAtEnd read % 2 = 1 ∨ character ≠ quote := by
        have goesOn := passes.not_halts split passed
        rw [endsQuotedValue, isOn_of_ahead_cons (passes.ahead_of_split split passed),
          escaped passed] at goesOn
        simpa [or_comm, imp_iff_or_not] using goesOn
      have step : (quotedMode quote name read).continued? character = _ :=
        continued?_quotedMode isInside
      exact ⟨fun _ => isQuoted_quotedMode _ _ _, TagMode.next_of_continued step,
        TagMode.ended_of_continued step⟩
    · rcases ends with atEnd | onQuote
      · exact fun _ => isOn_of_ahead_nil atEnd
      · obtain ⟨character, rest, ahead, isQuote⟩ :=
          exists_ahead_of_isOn (Bool.and_eq_true _ _ ▸ onQuote).1
        obtain rfl : character = quote := beq_iff_eq.mp isQuote
        exact fun _ => (isOn_of_ahead_cons ahead).trans (beq_false_of_ne notAngle)
  have isRead : cursor.readQuotedValue quote =
      (text, (cursor.seek (endsQuotedValue quote)).advance) := by
    rw [← passes.textSince_eq]
    rfl
  rw [isRead]
  generalize cursor.seek (endsQuotedValue quote) = closing at *
  suffices leaves : Yields (quotedMode quote name text) [⟨name, some text⟩] .between closing
      closing.advance from inside.trans leaves
  rcases ends with atEnd | onQuote
  · rw [advance_of_ahead_nil atEnd]
    refine ⟨[], .done closing, by simp, ?_⟩
    rw [atEnd, TagMode.pass, pending_quotedMode]
    rfl
  · obtain ⟨onQuote, notEscaped⟩ := Bool.and_eq_true _ _ ▸ onQuote
    obtain ⟨character, rest, ahead, isQuote⟩ := exists_ahead_of_isOn onQuote
    obtain rfl : character = quote := beq_iff_eq.mp isQuote
    have notHidden : ¬ backslashesAtEnd text % 2 = 1 := by
      rw [escaped passes] at notEscaped
      simpa using notEscaped
    have ends : (TagMode.quoted character name text).continued? character = none := if_pos rfl
    rw [quotedMode, if_neg notHidden]
    have step : Yields (.quoted character name text) _ _ closing closing.advance :=
      .next ahead (fun same => absurd same notAngle) notSlash
    rwa [TagMode.ended_of_ends ends, TagMode.next_of_ends ends, TagMode.outset,
      if_neg (by simp [notName])] at step

/-- After an equals sign, and in a value without quotes. -/
def valueMode (name value : List Char) : TagMode :=
  if value.isEmpty then .afterEquals name else .bare name value

theorem continued?_valueMode {name value : List Char} (belongs : isUnquotedValueCharacter character)
    (notQuote : value = [] → AttributeText.opensQuote name character = false) :
    (valueMode name value).continued? character = some (.bare name (value ++ [character])) := by
  have notSpace : isWhitespace character = false := by
    simp only [isUnquotedValueCharacter, Bool.and_eq_true, Bool.not_eq_true'] at belongs
    exact belongs.1.1.1.1.1
  cases value with
  | nil => simp [valueMode, TagMode.continued?, notSpace, notQuote rfl, belongs]
  | cons first value => simp [valueMode, TagMode.continued?, belongs]

theorem continued?_valueMode_eq_none {name value : List Char}
    (ends : isUnquotedValueCharacter character = false)
    (first : value = [] → isWhitespace character = false ∧
      AttributeText.opensQuote name character = false) :
    (valueMode name value).continued? character = none := by
  cases value with
  | nil => simp [valueMode, TagMode.continued?, ends, (first rfl).1, (first rfl).2]
  | cons => simp [valueMode, TagMode.continued?, ends]

theorem pending_valueMode {name value : List Char} {following : Option Char}
    (notCutOff : value = [] → following.isSome)
    (noSlash : value.getLast? = some '/' → following ≠ some '>') :
    (valueMode name value).pending following = [⟨name, some value⟩] := by
  cases value with
  | nil =>
      obtain ⟨character, rfl⟩ := Option.isSome_iff_exists.mp (notCutOff rfl)
      rfl
  | cons first value =>
      rw [valueMode, if_neg (by simp), TagMode.pending,
        if_neg fun both => noSlash both.2 both.1]

theorem isQuoted_valueMode (name value : List Char) : (valueMode name value).isQuoted = false := by
  unfold valueMode
  split <;> rfl

def endsBareValue (place : Cursor) : Bool :=
  place.isSelfClosingEndAhead || !place.isOn isUnquotedValueCharacter

/-- A value without quotes is read up to a character that no value holds, or to `/>`. -/
theorem yields_readUnquotedValue (name : List Char) (notAtEnd : cursor.ahead ≠ [])
    (notSpace : cursor.isOn isWhitespace = false)
    (notQuote : cursor.isOn (AttributeText.opensQuote name) = false) :
    Yields (.afterEquals name) [⟨name, some cursor.readUnquotedValue.1⟩] .between cursor
      cursor.readUnquotedValue.2 := by
  obtain ⟨text, passes⟩ := leadsTo_seek cursor endsBareValue
  have ends := ahead_seek_eq_nil_or_halts cursor endsBareValue
  have noSlash := passes.noSlash fun isEnd => by simp [endsBareValue, isEnd]
  have atStart {read : List Char} {place : Cursor} (passed : Passes read cursor place)
      (first : read = []) : place = cursor := (first ▸ passed).unique (.done cursor)
  have inside : Yields (valueMode name []) [] (valueMode name text) cursor
      (cursor.seek endsBareValue) := by
    refine .of_passes (valueMode name) passes (fun {read character _ _} split passed => ?_) noSlash
    have ahead := passes.ahead_of_split split passed
    have goesOn := (Bool.or_eq_false_iff.mp (passes.not_halts split passed)).2
    rw [isOn_of_ahead_cons ahead, Bool.not_eq_false'] at goesOn
    have step := continued?_valueMode goesOn fun first =>
      (isOn_of_ahead_cons (atStart passed first ▸ ahead)).symm.trans notQuote
    refine ⟨fun isAngle => ?_, (TagMode.next_of_continued step).trans ?_,
      TagMode.ended_of_continued step⟩
    · rw [isAngle] at goesOn
      cases goesOn
    · rw [valueMode, if_neg (by simp)]
  have isRead : cursor.readUnquotedValue = (text, cursor.seek endsBareValue) := by
    rw [← passes.textSince_eq]
    rfl
  rw [isRead]
  generalize cursor.seek endsBareValue = ending at *
  suffices leaves : Yields (valueMode name text) [⟨name, some text⟩] .between ending ending from
    inside.trans leaves
  by_cases selfClosing : ending.isSelfClosingEndAhead
  · obtain ⟨rest, ahead⟩ := List.isPrefixOf_iff_prefix.mp selfClosing
    refine .leave_value ahead.symm (continued?_valueMode rfl fun _ => rfl)
  · have pending : (valueMode name text).pending ending.current? = [⟨name, some text⟩] := by
      refine pending_valueMode (fun first => ?_) (fun isLast isAngle => ?_)
      · rw [atStart passes first, current?, List.isSome_head?]
        simpa using notAtEnd
      · have notAngle := noSlash isLast
        rw [isOn_of_mem_current? isAngle] at notAngle
        cases notAngle
    rw [← pending]
    refine .leave (isQuoted_valueMode name text) fun character isNext => ?_
    refine continued?_valueMode_eq_none ?_ fun first => ?_
    · rcases ends with atEnd | halted
      · rw [current?, atEnd] at isNext
        cases isNext
      · have notValue := (Bool.or_eq_true _ _ ▸ halted).resolve_left selfClosing
        rw [isOn_of_mem_current? isNext] at notValue
        exact (Bool.not_eq_true' _).mp notValue
    · rw [atStart passes first] at isNext
      exact ⟨(isOn_of_mem_current? isNext).symm.trans notSpace,
        (isOn_of_mem_current? isNext).symm.trans notQuote⟩

theorem yields_readAttributeValue (name : List Char) (notSpace : cursor.isOn isWhitespace = false) :
    Yields (.afterEquals name)
      [⟨name, (cursor.readAttributeValue (name.head?.any isSigil)).1⟩] .between cursor
      (cursor.readAttributeValue (name.head?.any isSigil)).2 := by
  cases ahead : cursor.ahead with
  | nil =>
      have atEnd : cursor.current? = none := by rw [current?, ahead, List.head?_nil]
      have leaves : Yields (.afterEquals name) _ .between cursor cursor :=
        .leave rfl (by simp [atEnd])
      rw [atEnd] at leaves
      rw [readAttributeValue, atEnd]
      exact leaves
  | cons character rest =>
      have current : cursor.current? = some character := by rw [current?, ahead, List.head?_cons]
      rw [isOn_of_ahead_cons ahead] at notSpace
      cases quoted : AttributeText.opensQuote name character with
      | false =>
          rw [Fork.readAttributeValue_of_not_quoted current quoted]
          exact yields_readUnquotedValue name (by simp [ahead]) (isOn_of_ahead_cons ahead ▸ notSpace)
            (isOn_of_ahead_cons ahead ▸ quoted)
      | true =>
          have isQuote := (Bool.and_eq_true _ _ ▸ quoted).1
          obtain ⟨notBackslash, notSlash, notAngle, -⟩ := isQuote_spec isQuote
          have step : (TagMode.afterEquals name).continued? character =
              some (.quoted character name []) := by
            simp [TagMode.continued?, notSpace, quoted]
          have fresh : cursor.advance.backslashesBehind = 0 := by
            rw [backslashesBehind, advance_of_ahead_cons ahead,
              List.takeWhile_cons_of_neg (by simp [notBackslash])]
            rfl
          rw [Fork.readAttributeValue_of_quoted current quoted]
          have opened : Yields (.afterEquals name) _ _ cursor cursor.advance :=
            .next ahead (fun same => absurd same notAngle) notSlash
          rw [TagMode.next_of_continued step, TagMode.ended_of_continued step] at opened
          exact opened.trans (yields_readQuotedValue name isQuote fresh)

/-- After the name of an attribute and some white space. -/
def labelMode (name space : List Char) : TagMode :=
  if space.isEmpty then .label name else .afterLabel name

theorem continued?_labelMode (name space : List Char) :
    (labelMode name space).continued? character =
      if space = [] ∧ isNameCharacter character then some (.label (name ++ [character]))
      else if isWhitespace character then some (labelMode name (space ++ [character]))
      else if character = '=' then some (.afterEquals name)
      else none := by
  cases space <;> simp [labelMode, TagMode.continued?]

theorem pending_labelMode (name space : List Char) (following : Option Char) :
    (labelMode name space).pending following = [⟨name, none⟩] := by
  unfold labelMode
  split <;> rfl

theorem isQuoted_labelMode (name space : List Char) : (labelMode name space).isQuoted = false := by
  unfold labelMode
  split <;> rfl

theorem not_isNameCharacter_of_isWhitespace (isSpace : isWhitespace character) :
    isNameCharacter character = false := by
  simp [isNameCharacter, isSpace]

theorem yields_readAssignedValue (name : List Char) (nameEnds : cursor.isOn isNameCharacter = false) :
    Yields (.label name) [⟨name, (cursor.readAssignedValue (name.head?.any isSigil)).1⟩] .between
      cursor (cursor.readAssignedValue (name.head?.any isSigil)).2 := by
  obtain ⟨space, passes, -, toSpaceEnd⟩ :=
    exists_yields_skipWhile cursor isWhitespace (labelMode name) rfl rfl
      fun read character isSpace => by
        rw [continued?_labelMode, if_neg (by simp [not_isNameCharacter_of_isWhitespace isSpace]),
          if_pos isSpace]
  have spaceEnds := not_isOn_skipWhile cursor isWhitespace
  rw [readAssignedValue, skipWhitespace]
  have atStart (first : space = []) : cursor.skipWhile isWhitespace = cursor :=
    (first ▸ passes).unique (.done cursor)
  generalize cursor.skipWhile isWhitespace = spaceEnd at *
  split
  · next hasEquals =>
      obtain ⟨rest, ahead⟩ := List.isPrefixOf_iff_prefix.mp hasEquals
      have ahead : spaceEnd.ahead = '=' :: rest := ahead.symm
      have step : (labelMode name space).continued? '=' = some (.afterEquals name) := by
        rw [continued?_labelMode, if_neg (by simp [show isNameCharacter '=' = false from rfl])]
        rfl
      have equals : Yields (labelMode name space) _ _ spaceEnd spaceEnd.advance :=
        .next ahead (by simp) (by decide)
      rw [TagMode.next_of_continued step, TagMode.ended_of_continued step] at equals
      obtain ⟨-, -, -, toValue⟩ :=
        exists_yields_skipWhile spaceEnd.advance isWhitespace (fun _ => .afterEquals name) rfl rfl
          fun _ _ isSpace => by simp [TagMode.continued?, isSpace]
      exact toSpaceEnd.trans (equals.trans (toValue.trans
        (yields_readAttributeValue name (not_isOn_skipWhile _ isWhitespace))))
  · next noEquals =>
      have leaves : Yields (labelMode name space) ((labelMode name space).pending spaceEnd.current?)
          .between spaceEnd spaceEnd := by
        refine .leave (isQuoted_labelMode name space) fun character isNext => ?_
        have notEquals : character ≠ '=' := by
          rintro rfl
          obtain ⟨rest, ahead⟩ := List.head?_eq_some_iff.mp (Option.mem_def.mp isNext)
          exact noEquals (startsWith_of_ahead ahead)
        have notSpace : isWhitespace character = false :=
          (isOn_of_mem_current? isNext).symm.trans spaceEnds
        have notName (first : space = []) : isNameCharacter character = false :=
          (isOn_of_mem_current? (atStart first ▸ isNext)).symm.trans nameEnds
        rw [continued?_labelMode, if_neg fun both => by simp [notName both.1] at both,
          if_neg (by simp [notSpace]), if_neg notEquals]
      rw [pending_labelMode] at leaves
      exact toSpaceEnd.trans leaves

theorem directiveOf_unplaced (sigil : Char) (written : List Char) (value : Option (List Char))
    (position : Position) :
    (Attribute.directive (Attribute.directiveOf sigil written value position)).reword .unplaced =
      .directive (Attribute.directiveOf sigil written value .start) := by
  have keeps (text : Option String) : text.map id = text := Option.map_id_apply
  simp only [Attribute.reword, Directive.reword, Attribute.directiveOf, Rewording.unplaced, keeps, id]

theorem plain_unplaced (written : List Char) (value : Option (List Char)) (position : Position) :
    (Attribute.plain ⟨String.ofList written, value.map String.ofList, position⟩).reword .unplaced =
      .plain ⟨String.ofList written, value.map String.ofList, .start⟩ := by
  have keeps (text : Option String) : text.map id = text := Option.map_id_apply
  simp only [Attribute.reword, StaticAttribute.reword, Rewording.unplaced, keeps, id]

theorem exists_yields_readAttribute (isOn : cursor.isOn isNameCharacter) :
    ∃ written : AttributeText, Yields .between [written] .between cursor cursor.readAttribute.2 ∧
      cursor.readAttribute.1.reword .unplaced = written.toAttribute := by
  obtain ⟨first, rest, ahead, isName⟩ := exists_ahead_of_isOn isOn
  have starts : Yields .between _ _ cursor cursor.advance :=
    .next ahead (fun isAngle => by simp [isAngle, isNameCharacter, endsTag] at isName)
      (fun isSlash => by simp [isSlash, isNameCharacter, endsTag] at isName)
  have nothing : TagMode.between.continued? first = none := rfl
  rw [TagMode.next_of_ends nothing, TagMode.ended_of_ends nothing, TagMode.outset, if_pos isName]
    at starts
  obtain ⟨text, passes, -, toNameEnd⟩ :=
    exists_yields_skipWhile cursor.advance isNameCharacter (fun read => .label (first :: read)) rfl
      rfl fun read character isName => by simp [TagMode.continued?, isName]
  have assigned := yields_readAssignedValue (first :: text)
    (not_isOn_skipWhile cursor.advance isNameCharacter)
  have sameEnd : cursor.skipWhile isNameCharacter = cursor.advance.skipWhile isNameCharacter :=
    seek_of_not_halts (by simp [isOn])
  have isText : (cursor.advance.skipWhile isNameCharacter).textSince cursor.offset = first :: text :=
    (Passes.next ahead passes).textSince_eq
  rw [List.head?_cons, Option.any_some] at assigned
  generalize isNameEnd : cursor.advance.skipWhile isNameCharacter = nameEnd at *
  have read : cursor.readAttribute.2 = (nameEnd.readAssignedValue (isSigil first)).2 ∧
      cursor.readAttribute.1.reword .unplaced =
        AttributeText.toAttribute
          ⟨first :: text, (nameEnd.readAssignedValue (isSigil first)).1⟩ := by
    have isSigil? : cursor.sigil? = Option.filter isSigil (some first) := by
      rw [sigil?, current?, ahead, List.head?_cons]
      rfl
    cases hasSigil : isSigil first with
    | false =>
        have noSigil : Option.filter isSigil (some first) = none := by simp [hasSigil]
        simp only [readAttribute, isSigil?, AttributeText.toAttribute, List.head?_cons, noSigil,
          sameEnd, isText, plain_unplaced, and_self]
    | true =>
        have sigil : Option.filter isSigil (some first) = some first := by simp [hasSigil]
        simp only [readAttribute, isSigil?, AttributeText.toAttribute, List.head?_cons, sigil,
          isNameEnd, passes.textSince_eq, directiveOf_unplaced, List.tail_cons, and_self]
  refine ⟨_, ?_, read.2⟩
  rw [read.1]
  exact (starts.trans toNameEnd).trans assigned

/-- What is between attributes is passed over. -/
theorem yields_skipToAttribute (cursor : Cursor) :
    Yields .between [] .between cursor cursor.skipToAttribute := by
  obtain ⟨text, passes⟩ :=
    leadsTo_seek cursor fun place => place.isOn isNameCharacter || place.isTagEndAhead
  refine .of_passes (fun _ => .between) passes (fun {_ character _ place} split passed => ?_)
    (passes.noSlash fun isEnd => by simp [isTagEndAhead, isEnd])
  obtain ⟨notName, notEnd⟩ := Bool.or_eq_false_iff.mp (passes.not_halts split passed)
  have ahead := passes.ahead_of_split split passed
  have nothing : TagMode.between.continued? character = none := rfl
  rw [isOn_of_ahead_cons ahead] at notName
  refine ⟨fun isAngle => ?_, ?_, TagMode.ended_of_ends nothing⟩
  · rw [isTagEndAhead, isOn_of_ahead_cons ahead, isAngle] at notEnd
    cases notEnd
  · rw [TagMode.next_of_ends nothing, TagMode.outset, if_neg (by simp [notName])]

/-- One attribute after the other is read as the pass finds them. -/
theorem exists_yields_readAttributes (cursor : Cursor) :
    ∃ written : List AttributeText, Yields .between written .between cursor cursor.readAttributes.2 ∧
      cursor.readAttributes.1.map (·.reword .unplaced) = written.map (·.toAttribute) := by
  fun_induction readAttributes cursor with
  | case1 cursor place isOn first later ih =>
      obtain ⟨laterWritten, yieldsLater, sameLater⟩ := ih
      obtain ⟨written, yieldsFirst, sameFirst⟩ := exists_yields_readAttribute isOn
      refine ⟨written :: laterWritten, ?_, ?_⟩
      · exact (yields_skipToAttribute cursor).trans (yieldsFirst.trans yieldsLater)
      · rw [List.map_cons, List.map_cons, sameLater]
        exact congrArg (· :: _) sameFirst
  | case2 cursor place notOn => exact ⟨[], yields_skipToAttribute cursor, rfl⟩

/-- The pass over the opening tag ahead. -/
def passedTag (cursor : Cursor) : PassedTag :=
  TagMode.tagName.pass cursor.ahead.tail

theorem exists_yields_openingTagEnd (isAhead : cursor.isOpeningTagAhead) :
    ∃ written : List AttributeText,
      Yields .tagName written .between cursor.advance cursor.openingTagEnd ∧
      cursor.readOpeningTag.1.tag.reword .unplaced =
        { name := String.ofList (cursor.ahead.tail.takeWhile isNameCharacter)
          attributes := (written.map (·.toAttribute)).filterMap Attribute.plain?
          directives := (written.map (·.toAttribute)).filterMap Attribute.directive?
          position := .start } := by
  obtain ⟨first, rest, ahead, -⟩ := exists_ahead_of_isOpeningTagAhead isAhead
  have opened : cursor.skip ['<'] = cursor.advance := skip_eq (.one ahead) ahead
  obtain ⟨name, passes, legal, toNameEnd⟩ := exists_yields_skipWhile cursor.advance isNameCharacter
    (fun _ => .tagName) rfl rfl fun _ _ isName => if_pos isName
  have nameEnds := not_isOn_skipWhile cursor.advance isNameCharacter
  generalize isNameEnd : cursor.advance.skipWhile isNameCharacter = nameEnd at *
  have leaves : Yields .tagName [] .between nameEnd nameEnd :=
    .leave rfl fun character isNext =>
      if_neg (Bool.eq_false_iff.mp ((isOn_of_mem_current? isNext).symm.trans nameEnds))
  obtain ⟨written, yields, same⟩ := exists_yields_readAttributes nameEnd
  have isName : (cursor.skip ['<']).readName = (name, nameEnd) := by
    rw [readName, opened, isNameEnd, passes.textSince_eq]
  refine ⟨written, ?_, ?_⟩
  · rw [openingTagEnd, isName]
    exact toNameEnd.trans (leaves.trans yields)
  · have taken : cursor.ahead.tail.takeWhile isNameCharacter = name := by
      have noneLeft : nameEnd.ahead.takeWhile isNameCharacter = [] := by
        cases pending : nameEnd.ahead with
        | nil => rfl
        | cons character rest =>
            rw [isOn_of_ahead_cons pending] at nameEnds
            exact List.takeWhile_cons_of_neg (by simp [nameEnds])
      rw [← ahead_advance, passes.ahead_eq, List.takeWhile_append_of_pos legal, noneLeft,
        List.append_nil]
    have plain := Attribute.filterMap_plain?_reword .unplaced nameEnd.readAttributes.1
    have directives := Attribute.filterMap_directive?_reword .unplaced nameEnd.readAttributes.1
    rw [same] at plain directives
    rw [taken, plain, directives]
    simp only [readOpeningTag, isName]
    rfl

theorem openingTagEnd_cases (cursor : Cursor) :
    cursor.openingTagEnd.ahead = [] ∨ (∃ after, cursor.openingTagEnd.ahead = '>' :: after) ∨
      ∃ after, cursor.openingTagEnd.ahead = '/' :: '>' :: after := by
  refine (isTagEndAhead_readAttributes _).imp_right fun isEnd => ?_
  rcases Bool.or_eq_true _ _ ▸ isEnd with onAngle | selfClosing
  · obtain ⟨character, after, ahead, isAngle⟩ := exists_ahead_of_isOn onAngle
    exact .inl ⟨after, beq_iff_eq.mp isAngle ▸ ahead⟩
  · obtain ⟨after, ahead⟩ := List.isPrefixOf_iff_prefix.mp selfClosing
    exact .inr ⟨after, ahead.symm⟩

/-- Between the attributes and the `>` of a tag there is at most the slash of `/>`, and what is read
after the attributes is no more than that and the `>`. -/
structure IsTagEnd (place : Cursor) (slash rest : List Char) : Prop where
  ahead : place.ahead = slash ++ rest
  isSlash : slash = if place.isSelfClosingEndAhead then ['/'] else []
  passed : TagMode.between.pass place.ahead = ⟨[], slash, rest⟩
  passes : Passes (slash ++ rest.take 1) place place.skipTagEnd

theorem exists_isTagEnd (cursor : Cursor) :
    ∃ slash rest, IsTagEnd cursor.openingTagEnd slash rest := by
  rcases openingTagEnd_cases cursor with ahead | ⟨after, ahead⟩ | ⟨after, ahead⟩
  · have notSelfClosing : cursor.openingTagEnd.isSelfClosingEndAhead = false := by
      simp [isSelfClosingEndAhead, startsWith, ahead]
    refine ⟨[], [], ahead, by simp [notSelfClosing], by rw [ahead]; rfl, ?_⟩
    rw [skipTagEnd, if_neg (by simp [notSelfClosing]), skipPast, seek_of_ahead_nil ahead,
      advance_of_ahead_nil ahead]
    exact .done _
  · have notSelfClosing := isSelfClosingEndAhead_eq_false ahead (by simp)
    refine ⟨[], '>' :: after, ahead, by simp [notSelfClosing], by rw [ahead]; rfl, ?_⟩
    rw [skipTagEnd, if_neg (by simp [notSelfClosing]), skipPast_eq ahead]
    exact .one ahead
  · have selfClosing := isSelfClosingEndAhead_of_ahead ahead
    refine ⟨['/'], '>' :: after, ahead, by simp [selfClosing], by rw [ahead]; rfl, ?_⟩
    have closing : cursor.openingTagEnd.ahead = ['/', '>'] ++ after := ahead
    rw [skipTagEnd, if_pos selfClosing]
    exact passes_advanceBy closing

/-- The pass over a tag divides it where its reader does. -/
theorem exists_passedTag (isAhead : cursor.isOpeningTagAhead) :
    ∃ text slash, Passes text cursor.advance cursor.openingTagEnd ∧
      (text.getLast? = some '/' → cursor.openingTagEnd.isOn (· == '>') = false) ∧
      cursor.passedTag.inner = text ++ slash ∧
      IsTagEnd cursor.openingTagEnd slash cursor.passedTag.rest ∧
      cursor.readOpeningTag.1.tag.reword .unplaced =
        { name := String.ofList (cursor.ahead.tail.takeWhile isNameCharacter)
          attributes :=
            (cursor.passedTag.attributes.map (·.toAttribute)).filterMap Attribute.plain?
          directives :=
            (cursor.passedTag.attributes.map (·.toAttribute)).filterMap Attribute.directive?
          position := .start } := by
  obtain ⟨written, ⟨text, passes, noSlash, passed⟩, isTag⟩ := exists_yields_openingTagEnd isAhead
  obtain ⟨slash, rest, tagEnd⟩ := exists_isTagEnd cursor
  have whole : cursor.passedTag = ⟨written, text ++ slash, rest⟩ := by
    rw [passedTag, ← ahead_advance, passed, tagEnd.passed, List.append_nil]
  rw [whole]
  exact ⟨text, slash, passes, noSlash, rfl, tagEnd, isTag⟩

/-- A tag closes itself if there is a slash directly before its `>`. -/
theorem isSelfClosingEndAhead_iff (isAhead : cursor.isOpeningTagAhead) :
    cursor.openingTagEnd.isSelfClosingEndAhead ↔
      cursor.passedTag.rest ≠ [] ∧ cursor.passedTag.inner.getLast? = some '/' := by
  obtain ⟨text, slash, -, noSlash, inner, tagEnd, -⟩ := exists_passedTag isAhead
  have isSlash := tagEnd.isSlash
  cases selfClosing : cursor.openingTagEnd.isSelfClosingEndAhead with
  | true =>
      obtain ⟨after, ahead⟩ := List.isPrefixOf_iff_prefix.mp selfClosing
      rw [selfClosing, if_pos rfl] at isSlash
      rw [tagEnd.ahead, isSlash] at ahead
      have rest : cursor.passedTag.rest = '>' :: after := (List.cons.inj ahead).2.symm
      simp [rest, inner, isSlash]
  | false =>
      rw [selfClosing, if_neg Bool.false_ne_true] at isSlash
      rw [inner, isSlash, List.append_nil]
      refine iff_of_false Bool.false_ne_true fun ⟨notCutOff, isLast⟩ => ?_
      obtain ⟨angle, after, rest⟩ := List.exists_cons_of_ne_nil notCutOff
      have isAngle := ((TagMode.pass_spec .tagName cursor.ahead.tail).2.angle angle
        (by rw [← passedTag, rest, List.head?_cons]; rfl)).1
      have notOn := noSlash isLast
      rw [isOn_of_ahead_cons (tagEnd.ahead.trans (by rw [isSlash, rest]; rfl)), isAngle] at notOn
      cases notOn

/-- The opening tag ahead is read as the pass finds it. -/
structure IsReadAsPassed (cursor : Cursor) : Prop where
  split : cursor.ahead = '<' :: (cursor.passedTag.inner ++ cursor.passedTag.rest)
  endsAt : TagMode.tagName.EndsAt cursor.passedTag.inner cursor.passedTag.rest
  /-- The tag is read up to and including its `>`. -/
  passes : Passes ('<' :: (cursor.passedTag.inner ++ cursor.passedTag.rest.take 1)) cursor
    cursor.readOpeningTag.2
  tag : cursor.readOpeningTag.1.tag.reword .unplaced =
    { name := String.ofList (cursor.ahead.tail.takeWhile isNameCharacter)
      attributes := (cursor.passedTag.attributes.map (·.toAttribute)).filterMap Attribute.plain?
      directives := (cursor.passedTag.attributes.map (·.toAttribute)).filterMap Attribute.directive?
      position := .start }
  isSelfClosing : cursor.readOpeningTag.1.isSelfClosing ↔
    cursor.passedTag.rest ≠ [] ∧ cursor.passedTag.inner.getLast? = some '/'
  /-- After the attributes nothing but the end of the tag is read. -/
  passesEnd : Passes
    ((if cursor.readOpeningTag.1.isSelfClosing then ['/'] else []) ++ cursor.passedTag.rest.take 1)
    cursor.openingTagEnd cursor.readOpeningTag.2

/-- An opening tag is read up to and including the first `>` outside of quoted values, or up to the end
of the source. -/
theorem readOpeningTag_eq_passed (isAhead : cursor.isOpeningTagAhead) : IsReadAsPassed cursor := by
  obtain ⟨first, rest, ahead, -⟩ := exists_ahead_of_isOpeningTagAhead isAhead
  obtain ⟨text, slash, passes, noSlash, inner, tagEnd, isTag⟩ := exists_passedTag isAhead
  obtain ⟨split, endsAt⟩ := TagMode.pass_spec .tagName cursor.ahead.tail
  refine ⟨?_, endsAt, ?_, isTag, isSelfClosingEndAhead_iff isAhead, tagEnd.isSlash ▸ tagEnd.passes⟩
  · exact ahead.trans (congrArg ('<' :: ·) ((congrArg List.tail ahead).symm.trans split.symm))
  · rw [inner, List.append_assoc]
    exact .next ahead (passes.trans tagEnd.passes)

/-- The first value has a hidden quote in it, the second stands behind no name, backticks quote that of
a directive, and a quote behind a value opens nothing. -/
theorem readOpeningTag_eq_passed_tangled :
    let cursor := atStart "<a b=\"\\\">\" =\"c\" #d = `>`e=/\"/>\">" .start
    cursor.isOpeningTagAhead ∧ IsReadAsPassed cursor ∧
      cursor.passedTag.attributes =
        [⟨['b'], some "\\\">".toList⟩, ⟨['c'], none⟩, ⟨['#', 'd'], some ['>']⟩,
          ⟨['e'], some ['/']⟩] ∧
      cursor.passedTag.rest = ">\">".toList :=
  ⟨by decide +kernel, readOpeningTag_eq_passed (by decide +kernel), by decide +kernel,
    by decide +kernel⟩

end Cursor

end TemplateMarkup
