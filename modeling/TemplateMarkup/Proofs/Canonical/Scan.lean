import Mathlib.Data.List.TakeWhile
import TemplateMarkup.Proofs.Canonical.Writing
import TemplateMarkup.Proofs.Source.Passage

/-!
# Scanning canonical markup

The tokens of a written forest.  Each reader is shown to pass over exactly the text that was written
for it, before any rest that cannot be taken for a part of it: names end at a character that no name
holds, a quoted value at its closing quote, a bare value at the character that follows it, and a text
at the next tag.
-/

namespace TemplateMarkup

open CharacterClass

namespace Cursor

theorem startsWith_of_ahead {cursor : Cursor} {text rest : List Char}
    (ahead : cursor.ahead = text ++ rest) : cursor.startsWith text = true := by
  rw [startsWith, ahead, List.isPrefixOf_iff_prefix]
  exact List.prefix_append text rest

theorem startsWith_cons_eq_false {cursor : Cursor} {first : Char} {text : List Char}
    (other : cursor.ahead.head? ≠ some first) : cursor.startsWith (first :: text) = false := by
  unfold startsWith
  cases ahead : cursor.ahead with
  | nil => rfl
  | cons character rest =>
      have different : first ≠ character := fun same => other (by rw [ahead, same]; rfl)
      simp [List.isPrefixOf, different]

theorem endsTextPiece_eq_false {cursor : Cursor} (other : cursor.ahead.head? ≠ some '<') :
    cursor.endsTextPiece = false := by
  have notOpening : cursor.isOpeningTagAhead = false := by
    unfold isOpeningTagAhead isOn current?
    cases ahead : cursor.ahead with
    | nil => rfl
    | cons character rest =>
        have different : character ≠ '<' := fun same => other (by rw [ahead, same]; rfl)
        simp [different]
  rw [endsTextPiece, notOpening, isClosingTagAhead, isCommentAhead,
    show closingTagOpener = '<' :: ['/'] from rfl, startsWith_cons_eq_false other,
    show commentOpener = '<' :: ['!', '-', '-'] from rfl, startsWith_cons_eq_false other]
  rfl

/-- The cursor is at a tag or at the end of the source. -/
def IsAtTag (cursor : Cursor) : Prop :=
  cursor.ahead = [] ∨ cursor.isOpeningTagAhead ∨ cursor.isClosingTagAhead

theorem IsAtTag.not_comment {cursor : Cursor} (atTag : cursor.IsAtTag) :
    cursor.isCommentAhead = false := by
  rw [Bool.eq_false_iff]
  intro comment
  obtain ⟨rest, ahead⟩ := List.isPrefixOf_iff_prefix.mp comment
  have split : cursor.ahead = '<' :: '!' :: '-' :: '-' :: rest := ahead.symm
  rcases atTag with atEnd | opening | closing
  · exact absurd (split.symm.trans atEnd) (by simp)
  · have notName : startsTagName '!' = false := by decide
    rw [isOpeningTagAhead, peek?, split] at opening
    exact absurd opening (by simp [notName])
  · rw [isClosingTagAhead, startsWith, split] at closing
    exact absurd closing (by simp [show closingTagOpener = ['<', '/'] from rfl])

/-- A text without angle brackets is read up to the tag that follows it. -/
theorem readText_eq {content : List Char} {cursor place : Cursor}
    (passes : Passes content cursor place) (noAngle : '<' ∉ content) (atTag : place.IsAtTag) :
    cursor.readText = (⟨String.ofList content, place.textEnd, cursor.position⟩, place) := by
  have sought : cursor.seek endsTextPiece = place := by
    refine passes.seek_eq ?_ ?_
    · intro read on character rest split passed
      refine endsTextPiece_eq_false ?_
      rw [passes.ahead_of_split split passed]
      intro same
      have isAngle : character = '<' := by simpa using same
      exact noAngle (by simp [split, isAngle])
    · rcases atTag with atEnd | opening | closing
      · exact .inl atEnd
      · exact .inr (by simp [endsTextPiece, opening])
      · exact .inr (by simp [endsTextPiece, closing])
  have pieces : cursor.readTextPieces = (content, place) := by
    rw [readTextPieces]
    simp only [sought, passes.textSince_eq, atTag.not_comment]
    rfl
  simp only [readText, pieces]

theorem readName_eq {name : List Char} {cursor place : Cursor} (passes : Passes name cursor place)
    (legal : ∀ character ∈ name, isNameCharacter character)
    (ends : place.isOn isNameCharacter = false) : cursor.readName = (name, place) := by
  rw [readName, passes.skipWhile_eq legal ends, passes.textSince_eq]

theorem skip_eq {text rest : List Char} {cursor place : Cursor} (passes : Passes text cursor place)
    (ahead : cursor.ahead = text ++ rest) : cursor.skip text = place := by
  rw [skip, if_pos (startsWith_of_ahead ahead)]
  exact passes.eq_advanceBy.symm

theorem skipPast_eq {cursor : Cursor} {character : Char} {rest : List Char}
    (ahead : cursor.ahead = character :: rest) : cursor.skipPast character = cursor.advance := by
  rw [skipPast, seek_of_halts]
  simp [isOn_of_ahead_cons ahead]

/-- What may follow an attribute: a space and the next attribute, or the end of the tag. -/
inductive Follows : Char → List Char → Prop where
  | space {character : Char} (rest : List Char) (starts : isNameCharacter character) :
      Follows ' ' (' ' :: character :: rest)
  | tagEnd (rest : List Char) : Follows '>' ('>' :: rest)
  | selfClosingEnd (rest : List Char) : Follows '/' ('/' :: '>' :: rest)

theorem backslashesBehind_of_passes {read : List Char} {cursor place : Cursor}
    (passed : Passes read cursor place) (fresh : cursor.backslashesBehind = 0) :
    place.backslashesBehind = backslashesAtEnd read := by
  have none : cursor.behind.takeWhile (· == '\\') = [] := List.length_eq_zero_iff.mp fresh
  unfold backslashesBehind backslashesAtEnd
  rw [passed.behind_eq, List.takeWhile_append, none]
  split
  · next all =>
      rw [List.append_nil]
      exact all.symm
  · rfl

theorem skipWhile_eq_self {cursor : Cursor} {belongs : Char → Bool}
    (stays : cursor.isOn belongs = false) : cursor.skipWhile belongs = cursor :=
  (Passes.done cursor).skipWhile_eq (by simp) stays

theorem readQuotedValue_eq {content rest : List Char} {quote : Char} {cursor place : Cursor}
    (passes : Passes content cursor place) (ahead : place.ahead = quote :: rest)
    (fresh : cursor.backslashesBehind = 0)
    (escaped : ∀ index < content.length, content[index]? = some quote →
      backslashesAtEnd (content.take index) % 2 = 1)
    (closes : backslashesAtEnd content % 2 = 0) :
    cursor.readQuotedValue quote = (content, place.advance) := by
  have sought : (cursor.seek fun here => here.isOn (· == quote) && !here.isEscaped) = place := by
    refine passes.seek_eq ?_ (.inr ?_)
    · intro read here character later split passed
      rw [isOn_of_ahead_cons (passes.ahead_of_split split passed)]
      by_cases same : character = quote
      · have inside : read.length < content.length := by simp [split]
        have odd := escaped read.length inside (by simp [split, same])
        rw [split, List.take_left] at odd
        simp [isEscaped, backslashesBehind_of_passes passed fresh, odd]
      · simp [same]
    · simp [isOn_of_ahead_cons ahead, isEscaped, backslashesBehind_of_passes passes fresh, closes]
  simp only [readQuotedValue, sought, passes.textSince_eq]

theorem isSelfClosingEndAhead_eq_false {cursor : Cursor} {character : Char} {rest : List Char}
    (ahead : cursor.ahead = character :: rest)
    (other : character = '/' → rest.head? ≠ some '>') : cursor.isSelfClosingEndAhead = false := by
  unfold isSelfClosingEndAhead startsWith
  rw [ahead, show "/>".toList = ['/', '>'] from rfl]
  cases rest with
  | nil => simp [List.isPrefixOf]
  | cons next rest =>
      by_cases slash : character = '/'
      · have different : '>' ≠ next := fun same => other slash (by rw [← same]; rfl)
        simp [List.isPrefixOf, different]
      · simp [List.isPrefixOf, Ne.symm slash]

theorem isSelfClosingEndAhead_of_ahead {cursor : Cursor} {rest : List Char}
    (ahead : cursor.ahead = '/' :: '>' :: rest) : cursor.isSelfClosingEndAhead = true := by
  rw [isSelfClosingEndAhead, show "/>".toList = ['/', '>'] from rfl]
  exact startsWith_of_ahead ahead

/-- A bare value ends before what may follow an attribute. -/
theorem Follows.endsBareValue {following : Char} {cursor : Cursor}
    (follows : Follows following cursor.ahead) :
    (cursor.isSelfClosingEndAhead || !cursor.isOn isUnquotedValueCharacter) = true := by
  generalize ahead : cursor.ahead = text at follows
  cases follows with
  | space => simp [isOn_of_ahead_cons ahead, isUnquotedValueCharacter, isWhitespace]
  | tagEnd => simp [isOn_of_ahead_cons ahead, isUnquotedValueCharacter]
  | selfClosingEnd => simp [isSelfClosingEndAhead_of_ahead ahead]

theorem Follows.head? {following : Char} {rest : List Char} (follows : Follows following rest) :
    rest.head? = some following := by
  cases follows <;> rfl

theorem readUnquotedValue_eq {content : List Char} {following : Char} {cursor place : Cursor}
    (passes : Passes content cursor place)
    (legal : ∀ character ∈ content, isUnquotedValueCharacter character)
    (noSlash : content.getLast? = some '/' → following ≠ '>')
    (follows : Follows following place.ahead) :
    cursor.readUnquotedValue = (content, place) := by
  have sought : (cursor.seek fun here =>
      here.isSelfClosingEndAhead || !here.isOn isUnquotedValueCharacter) = place := by
    refine passes.seek_eq ?_ (.inr follows.endsBareValue)
    intro read here character later split passed
    have ahead := passes.ahead_of_split split passed
    have notEnd : here.isSelfClosingEndAhead = false := by
      refine isSelfClosingEndAhead_eq_false ahead ?_
      intro slash
      cases later with
      | nil =>
          rw [List.nil_append, follows.head?]
          intro angle
          exact noSlash (by simp [split, slash]) (Option.some.inj angle)
      | cons next later =>
          intro angle
          have isAngle : next = '>' := by simpa using angle
          have isLegal := legal next (by simp [split])
          exact absurd isLegal (by simp [isAngle, isUnquotedValueCharacter])
    simp [notEnd, isOn_of_ahead_cons ahead, legal character (by simp [split])]
  simp only [readUnquotedValue, sought, passes.textSince_eq]

/-- At the given text, or past the single space that it starts with. -/
def IsAbout (cursor : Cursor) (text : List Char) : Prop :=
  cursor.ahead = text ∨ ' ' :: cursor.ahead = text

/-- A value does not start with white space, and an empty one is not followed by any. -/
theorem isOn_whitespace_of_value {value : WrittenValue} {ofDirective : Bool} {following : Char}
    {rest : List Char} {cursor : Cursor} (legal : value.IsLegal ofDirective following)
    (ahead : cursor.ahead = value.write ++ rest) (follows : Follows following rest) :
    cursor.isOn isWhitespace = false := by
  rcases value with ⟨quoting, content⟩
  cases quoting with
  | between quote =>
      have atQuote : cursor.ahead = quote :: (content ++ [quote] ++ rest) := ahead
      have isQuoted : isQuote quote := legal.1
      rw [isOn_of_ahead_cons atQuote]
      revert isQuoted
      simp only [isQuote, Bool.or_eq_true, beq_iff_eq]
      rintro ((rfl | rfl) | rfl) <;> decide
  | bare =>
      obtain ⟨legalCharacters, -, notSpaced, -⟩ := legal
      cases content with
      | nil =>
          have atRest : cursor.ahead = rest := ahead
          cases follows with
          | space => exact absurd rfl (notSpaced rfl)
          | tagEnd => simp [isOn_of_ahead_cons atRest, isWhitespace, isLineBreak]
          | selfClosingEnd => simp [isOn_of_ahead_cons atRest, isWhitespace, isLineBreak]
      | cons first content =>
          have atFirst : cursor.ahead = first :: (content ++ rest) := ahead
          have isLegal := legalCharacters first (by simp)
          rw [isOn_of_ahead_cons atFirst]
          simp_all [isUnquotedValueCharacter]

theorem not_quoted_of_bare {content : List Char} {backtickQuotes : Bool} {following : Char}
    {rest : List Char} {cursor : Cursor}
    (legal : WrittenValue.IsLegal ⟨.bare, content⟩ backtickQuotes following)
    (ahead : cursor.ahead = content ++ rest) (follows : Follows following rest) (character : Char)
    (isNext : cursor.current? = some character) :
    (isQuote character && (character != '`' || backtickQuotes)) = false := by
  obtain ⟨legalCharacters, noBacktick, -, -⟩ := legal
  cases content with
  | nil =>
      have same : following = character := by
        rw [current?, ahead, List.nil_append, follows.head?] at isNext
        exact Option.some.inj isNext
      have notQuote : isQuote following = false := by
        cases follows <;> decide
      simp [← same, notQuote]
  | cons first content =>
      have same : first = character := by simpa [current?, ahead] using isNext
      have isLegal := legalCharacters first (by simp)
      cases backtickQuotes with
      | true =>
          have other : first ≠ '`' := by simpa using noBacktick rfl
          simp_all [isUnquotedValueCharacter, isQuote]
      | false => simp_all [isUnquotedValueCharacter, isQuote]

theorem readAttributeValue_eq {value : WrittenValue} {backtickQuotes : Bool} {following : Char}
    {rest : List Char} {cursor : Cursor} (ahead : cursor.ahead = value.write ++ rest)
    (legal : value.IsLegal backtickQuotes following) (follows : Follows following rest) :
    ∃ stop, cursor.readAttributeValue backtickQuotes = (some value.content, stop) ∧
      stop.ahead = rest := by
  rcases value with ⟨quoting, content⟩
  cases quoting with
  | between quote =>
      obtain ⟨isQuoted, allowed, escaped, closes⟩ := legal
      have opened : cursor.ahead = quote :: (content ++ quote :: rest) := by
        simpa [WrittenValue.write] using ahead
      have inside : cursor.advance.ahead = content ++ quote :: rest := by
        rw [advance_of_ahead_cons opened]
      obtain ⟨place, passes, atQuote⟩ := exists_passes inside
      have notBackslash : quote ≠ '\\' := by
        intro same
        exact absurd isQuoted (by simp [same, isQuote])
      have freshInside : cursor.advance.backslashesBehind = 0 := by
        simp [backslashesBehind, advance_of_ahead_cons opened, notBackslash]
      have isOpen : (isQuote quote && (quote != '`' || backtickQuotes)) = true := by
        by_cases backtick : quote = '`'
        · simp [isQuoted, allowed backtick]
        · simp [isQuoted, backtick]
      refine ⟨place.advance, ?_, by rw [advance_of_ahead_cons atQuote]⟩
      simp only [readAttributeValue, current?, opened, List.head?_cons, isOpen, if_true,
        readQuotedValue_eq passes atQuote freshInside escaped closes]
  | bare =>
      have ahead : cursor.ahead = content ++ rest := ahead
      have notQuoted := not_quoted_of_bare legal ahead follows
      obtain ⟨legalCharacters, -, -, noSlash⟩ := legal
      obtain ⟨place, passes, atRest⟩ := exists_passes ahead
      have read := readUnquotedValue_eq passes legalCharacters noSlash (atRest.symm ▸ follows)
      refine ⟨place, ?_, atRest⟩
      cases isNext : cursor.current? with
      | none =>
          have atEnd : cursor.ahead = [] := by simpa [current?] using isNext
          have noRest : rest = [] := (List.append_eq_nil_iff.mp (ahead.symm.trans atEnd)).2
          exact absurd follows (by rw [noRest]; rintro ⟨⟩)
      | some character =>
          simp only [readAttributeValue, isNext, notQuoted character isNext]
          simp [read]

/-- The text after the name of an attribute. -/
def writeAssigned (value : Option WrittenValue) : List Char :=
  match value with
  | none => []
  | some value => '=' :: value.write

theorem readAssignedValue_eq {value : Option WrittenValue} {backtickQuotes : Bool}
    {following : Char} {rest : List Char} {cursor : Cursor}
    (ahead : cursor.ahead = writeAssigned value ++ rest)
    (legal : ∀ written ∈ value, written.IsLegal backtickQuotes following)
    (follows : Follows following rest) :
    ∃ stop, cursor.readAssignedValue backtickQuotes = (value.map (·.content), stop) ∧
      stop.IsAbout rest := by
  cases value with
  | none =>
      have atRest : cursor.ahead = rest := ahead
      cases follows with
      | space later starts =>
          have stays : cursor.advance.isOn isWhitespace = false := by
            rw [advance_of_ahead_cons atRest, isOn_of_ahead_cons rfl]
            unfold isNameCharacter at starts
            simp_all
          have skipped : cursor.skipWhitespace = cursor.advance :=
            (Passes.one atRest).skipWhile_eq (by simp [isWhitespace]) stays
          have noEquals : cursor.advance.startsWith ['='] = false := by
            refine startsWith_cons_eq_false ?_
            rw [advance_of_ahead_cons atRest]
            rintro same
            simp_all [isNameCharacter]
          refine ⟨cursor.advance, ?_, .inr ?_⟩
          · simp [readAssignedValue, skipped, noEquals]
          · rw [advance_of_ahead_cons atRest]
      | tagEnd later =>
          have skipped : cursor.skipWhitespace = cursor :=
            skipWhile_eq_self (by simp [isOn_of_ahead_cons atRest, isWhitespace, isLineBreak])
          have noEquals : cursor.startsWith ['='] = false :=
            startsWith_cons_eq_false (by simp [atRest])
          exact ⟨cursor, by simp [readAssignedValue, skipped, noEquals], .inl atRest⟩
      | selfClosingEnd later =>
          have skipped : cursor.skipWhitespace = cursor :=
            skipWhile_eq_self (by simp [isOn_of_ahead_cons atRest, isWhitespace, isLineBreak])
          have noEquals : cursor.startsWith ['='] = false :=
            startsWith_cons_eq_false (by simp [atRest])
          exact ⟨cursor, by simp [readAssignedValue, skipped, noEquals], .inl atRest⟩
  | some value =>
      have isLegal := legal value rfl
      have atEquals : cursor.ahead = '=' :: (value.write ++ rest) := ahead
      have skipped : cursor.skipWhitespace = cursor :=
        skipWhile_eq_self (by simp [isOn_of_ahead_cons atEquals, isWhitespace, isLineBreak])
      have equals : cursor.startsWith ['='] = true := startsWith_of_ahead atEquals
      have atValue : cursor.advance.ahead = value.write ++ rest := by
        rw [advance_of_ahead_cons atEquals]
      have skippedAgain : cursor.advance.skipWhitespace = cursor.advance :=
        skipWhile_eq_self (isOn_whitespace_of_value isLegal atValue follows)
      obtain ⟨stop, read, atRest⟩ := readAttributeValue_eq atValue isLegal follows
      exact ⟨stop, by simp [readAssignedValue, skipped, equals, skippedAgain, read], .inl atRest⟩

theorem splitModifier_of_plain {name : List Char} (noColon : ∀ character ∈ name, character ≠ ':') :
    Attribute.splitModifier name = (String.ofList name, none) := by
  have all : ∀ character ∈ name, (character != ':') = true := by simpa using noColon
  unfold Attribute.splitModifier
  rw [List.takeWhile_eq_self_iff.mpr all, List.dropWhile_eq_nil_iff.mpr all]

theorem splitModifier_of_modified {name modifier : List Char}
    (noColon : ∀ character ∈ name, character ≠ ':') :
    Attribute.splitModifier (name ++ ':' :: modifier) =
      (String.ofList name, some (String.ofList modifier)) := by
  have all : ∀ character ∈ name, (character != ':') = true := by simpa using noColon
  unfold Attribute.splitModifier
  rw [List.takeWhile_append_of_pos all, List.dropWhile_append_of_pos all]
  simp

/-- The directive that is read from a legal label is the one that is written. -/
theorem directiveOf_body {written : WrittenAttribute} {sigil : Char} (position : Position)
    (hasSigil : written.label.sigil? = some sigil) (legal : written.label.IsLegal) :
    (Attribute.directive (Attribute.directiveOf sigil written.label.body
      (written.value.map (·.content)) position)).reword .unplaced = written.toAttribute := by
  rcases written with ⟨label, value⟩
  have forget (written : Option String) : written.map Rewording.unplaced.text = written :=
    Option.map_id_apply
  cases label with
  | plain name => cases hasSigil
  | binding bound =>
      cases hasSigil
      have nonempty : bound.isEmpty = false := by simpa using legal.1
      simp only [Attribute.reword, Directive.reword, Attribute.directiveOf, forget, Label.body,
        nonempty, beq_self_eq_true, if_true]
      rfl
  | directive name modifier =>
      cases hasSigil
      have noColon : ∀ character ∈ name, character ≠ ':' := fun _ member =>
        (legal.1 _ member).2
      cases modifier with
      | none =>
          simp only [Attribute.reword, Directive.reword, Attribute.directiveOf, forget, Label.body,
            splitModifier_of_plain noColon]
          rfl
      | some modifier =>
          simp only [Attribute.reword, Directive.reword, Attribute.directiveOf, forget, Label.body,
            splitModifier_of_modified noColon]
          rfl

theorem Label.body_legal {label : Label} (legal : label.IsLegal) :
    ∀ character ∈ label.body, isNameCharacter character := by
  intro character member
  rcases label with name | bound | ⟨name, modifier⟩
  · exact legal.2.1 character member
  · exact legal.2 character member
  · cases modifier with
    | none => exact (legal.1 character member).1
    | some modifier =>
        rcases List.mem_append.mp member with inName | inModifier
        · exact (legal.1 character inName).1
        · rcases List.mem_cons.mp inModifier with rfl | inModifier
          · decide
          · exact legal.2 modifier rfl character inModifier

/-- A name ends before a value and before what may follow an attribute. -/
theorem isOn_nameCharacter_of_assigned {value : Option WrittenValue} {following : Char}
    {rest : List Char} {cursor : Cursor} (ahead : cursor.ahead = writeAssigned value ++ rest)
    (follows : Follows following rest) : cursor.isOn isNameCharacter = false := by
  cases value with
  | none =>
      have atRest : cursor.ahead = rest := ahead
      cases follows <;> rw [isOn_of_ahead_cons atRest] <;> decide
  | some value =>
      have atEquals : cursor.ahead = '=' :: (value.write ++ rest) := ahead
      rw [isOn_of_ahead_cons atEquals]
      decide

theorem plain_of_body {written : WrittenAttribute} (position : Position)
    (noSigil : written.label.sigil? = none) :
    (Attribute.plain ⟨String.ofList written.label.body,
      (written.value.map (·.content)).map String.ofList, position⟩).reword .unplaced =
        written.toAttribute := by
  rcases written with ⟨label, value⟩
  cases label with
  | plain name => simp [Attribute.reword, StaticAttribute.reword, Rewording.unplaced,
      WrittenAttribute.toAttribute, Label.body]
  | binding bound => cases noSigil
  | directive name modifier => cases noSigil

theorem Label.sigil_spec {label : Label} {sigil : Char} (hasSigil : label.sigil? = some sigil) :
    (sigil == ':' || sigil == '#') = true := by
  cases label <;> cases hasSigil <;> rfl

theorem sigil?_eq_none {label : Label} {rest : List Char} {cursor : Cursor}
    (ahead : cursor.ahead = label.body ++ rest) (legal : label.IsLegal)
    (noSigil : label.sigil? = none) : cursor.sigil? = none := by
  cases label with
  | plain name =>
      obtain ⟨nonempty, -, noColon, noHash⟩ := legal
      cases name with
      | nil => exact absurd rfl nonempty
      | cons first name =>
          have other : (first == ':' || first == '#') = false := by simp_all
          rw [sigil?, current?, ahead, Label.body, List.cons_append, List.head?_cons,
            Option.filter_some]
          exact if_neg (by simp [other])
  | binding bound => cases noSigil
  | directive name modifier => cases noSigil

theorem readAttribute_eq {written : WrittenAttribute} {following : Char} {rest : List Char}
    {cursor : Cursor} (ahead : cursor.ahead = written.write ++ rest)
    (legalLabel : written.label.IsLegal)
    (legalValue : ∀ value ∈ written.value, value.IsLegal written.label.isDirective following)
    (follows : Follows following rest) :
    cursor.readAttribute.1.reword .unplaced = written.toAttribute ∧
      cursor.readAttribute.2.IsAbout rest := by
  have split : cursor.ahead =
      written.label.sigil?.toList ++ (written.label.body ++ (writeAssigned written.value ++ rest)) := by
    rw [ahead, ← List.append_assoc, ← List.append_assoc]
    rfl
  cases sigil : written.label.sigil? with
  | none =>
      rw [sigil, Option.toList_none, List.nil_append] at split
      obtain ⟨place, passes, atValue⟩ := exists_passes split
      have ends := isOn_nameCharacter_of_assigned atValue follows
      have named := passes.skipWhile_eq (Label.body_legal legalLabel) ends
      rw [Label.isDirective, sigil] at legalValue
      obtain ⟨stop, read, about⟩ := readAssignedValue_eq atValue legalValue follows
      have notSigil : cursor.sigil? = none := sigil?_eq_none split legalLabel sigil
      have result : cursor.readAttribute =
          (.plain ⟨String.ofList written.label.body,
            (written.value.map (·.content)).map String.ofList, cursor.position⟩, stop) := by
        simp only [readAttribute, notSigil, named, Option.isSome_none] at read ⊢
        rw [read, passes.textSince_eq]
      rw [result]
      exact ⟨plain_of_body cursor.position sigil, about⟩
  | some character =>
      rw [sigil, Option.toList_some, List.singleton_append] at split
      have inside : cursor.advance.ahead =
          written.label.body ++ (writeAssigned written.value ++ rest) := by
        rw [advance_of_ahead_cons split]
      obtain ⟨place, passes, atValue⟩ := exists_passes inside
      have ends := isOn_nameCharacter_of_assigned atValue follows
      have named := passes.skipWhile_eq (Label.body_legal legalLabel) ends
      rw [Label.isDirective, sigil] at legalValue
      obtain ⟨stop, read, about⟩ := readAssignedValue_eq atValue legalValue follows
      have isSigil : cursor.sigil? = some character := by
        rw [sigil?, current?, split, List.head?_cons, Option.filter_some]
        exact if_pos (Label.sigil_spec sigil)
      have result : cursor.readAttribute =
          (.directive (Attribute.directiveOf character written.label.body
            (written.value.map (·.content)) cursor.position), stop) := by
        simp only [readAttribute, isSigil, named, Option.isSome_some] at read ⊢
        rw [read, passes.textSince_eq]
      rw [result]
      exact ⟨directiveOf_body cursor.position sigil legalLabel, about⟩

/-- What starts an attribute is a name character: a sigil, or the first one of the name. -/
theorem exists_write_eq_cons {written : WrittenAttribute} (legal : written.label.IsLegal) :
    ∃ first rest, written.write = first :: rest ∧ isNameCharacter first := by
  rcases written with ⟨label, value⟩
  cases label with
  | plain name =>
      cases name with
      | nil => exact absurd rfl legal.1
      | cons first name => exact ⟨first, _, rfl, legal.2.1 first (by simp)⟩
  | binding bound => exact ⟨':', _, rfl, by decide⟩
  | directive name modifier => exact ⟨'#', _, rfl, by decide⟩

theorem follows_tagEnd (closesItself : Bool) (rest : List Char) :
    Follows (tagEndStart closesItself) (writeTagEnd closesItself ++ rest) := by
  cases closesItself with
  | false => exact .tagEnd rest
  | true => exact .selfClosingEnd rest

theorem follows_attributes {attributes : List WrittenAttribute} {closesItself : Bool}
    (legal : AttributesAreLegal attributes (tagEndStart closesItself)) (rest : List Char) :
    Follows (if attributes = [] then tagEndStart closesItself else ' ')
      (writeAttributes attributes ++ (writeTagEnd closesItself ++ rest)) := by
  cases attributes with
  | nil => exact follows_tagEnd closesItself rest
  | cons written later =>
      obtain ⟨first, more, write, starts⟩ := exists_write_eq_cons legal.1
      rw [if_neg (List.cons_ne_nil _ _), writeAttributes, List.flatMap_cons, write]
      exact .space _ starts

theorem isTagEndAhead_of_tagEnd {closesItself : Bool} {rest : List Char} {cursor : Cursor}
    (ahead : cursor.ahead = writeTagEnd closesItself ++ rest) :
    cursor.isTagEndAhead = true ∧ cursor.isOn isNameCharacter = false := by
  cases closesItself with
  | false =>
      have atEnd : cursor.ahead = '>' :: rest := ahead
      simp [isTagEndAhead, isOn_of_ahead_cons atEnd, isNameCharacter, endsTag]
  | true =>
      have atEnd : cursor.ahead = '/' :: '>' :: rest := ahead
      simp [isTagEndAhead, isSelfClosingEndAhead_of_ahead atEnd, isOn_of_ahead_cons atEnd,
        isNameCharacter, endsTag]

theorem skipToAttribute_eq {first : Char} {rest : List Char} {cursor : Cursor}
    (starts : isNameCharacter first) (about : cursor.IsAbout (' ' :: first :: rest)) :
    cursor.skipToAttribute.ahead = first :: rest := by
  rcases about with before | past
  · have atFirst : cursor.advance.ahead = first :: rest := by
      rw [advance_of_ahead_cons before]
    have goesOn : (cursor.isOn isNameCharacter || cursor.isTagEndAhead) = false := by
      have notEnd : cursor.isSelfClosingEndAhead = false :=
        isSelfClosingEndAhead_eq_false before (by simp)
      simp [isTagEndAhead, notEnd, isOn_of_ahead_cons before, isNameCharacter, isWhitespace]
    rw [skipToAttribute, seek_of_not_halts goesOn, seek_of_halts, atFirst]
    simp [isOn_of_ahead_cons atFirst, starts]
  · have atFirst : cursor.ahead = first :: rest := by simpa using past
    rw [skipToAttribute, seek_of_halts, atFirst]
    simp [isOn_of_ahead_cons atFirst, starts]

/-- All attributes of a tag are read, up to the end of the tag. -/
theorem readAttributes_eq {attributes : List WrittenAttribute} {closesItself : Bool}
    {rest : List Char} {cursor : Cursor}
    (legal : AttributesAreLegal attributes (tagEndStart closesItself))
    (about : cursor.IsAbout (writeAttributes attributes ++ (writeTagEnd closesItself ++ rest))) :
    cursor.readAttributes.1.map (·.reword .unplaced) = attributes.map (·.toAttribute) ∧
      cursor.readAttributes.2.ahead = writeTagEnd closesItself ++ rest := by
  induction attributes generalizing cursor with
  | nil =>
      have atEnd : cursor.ahead = writeTagEnd closesItself ++ rest := by
        rcases about with before | past
        · exact before
        · cases closesItself <;> exact absurd (List.cons.inj past).1 (by decide)
      obtain ⟨isEnd, noName⟩ := isTagEndAhead_of_tagEnd atEnd
      have stays : cursor.skipToAttribute = cursor := seek_of_halts (by simp [isEnd])
      rw [readAttributes, stays]
      simp only [noName, Bool.false_eq_true, dite_false]
      exact ⟨rfl, atEnd⟩
  | cons written later ih =>
      obtain ⟨legalLabel, legalValue, legalLater⟩ := legal
      obtain ⟨first, more, write, starts⟩ := exists_write_eq_cons legalLabel
      have atFirst : cursor.skipToAttribute.ahead = written.write ++
          (writeAttributes later ++ (writeTagEnd closesItself ++ rest)) := by
        rw [write]
        refine skipToAttribute_eq starts ?_
        simpa [writeAttributes, write] using about
      obtain ⟨read, aboutLater⟩ := readAttribute_eq atFirst legalLabel legalValue
        (follows_attributes legalLater rest)
      obtain ⟨readLater, atEnd⟩ := ih legalLater aboutLater
      have isOn : cursor.skipToAttribute.isOn isNameCharacter = true := by
        rw [isOn_of_ahead_cons (atFirst.trans (by rw [write, List.cons_append]))]
        exact starts
      rw [readAttributes]
      simp only [isOn, dite_true, List.map_cons, read, readLater, true_and]
      exact atEnd

theorem isOn_nameCharacter_of_attributes {attributes : List WrittenAttribute}
    {closesItself : Bool} {rest : List Char} {cursor : Cursor}
    (ahead : cursor.ahead = writeAttributes attributes ++ (writeTagEnd closesItself ++ rest)) :
    cursor.isOn isNameCharacter = false := by
  cases attributes with
  | nil => exact (isTagEndAhead_of_tagEnd ahead).2
  | cons written later =>
      rw [writeAttributes, List.flatMap_cons] at ahead
      rw [isOn_of_ahead_cons ahead]
      decide

theorem skipTagEnd_eq {closesItself : Bool} {rest : List Char} {cursor : Cursor}
    (ahead : cursor.ahead = writeTagEnd closesItself ++ rest) :
    cursor.isSelfClosingEndAhead = closesItself ∧ cursor.skipTagEnd.ahead = rest := by
  cases closesItself with
  | false =>
      have atEnd : cursor.ahead = '>' :: rest := ahead
      have notClosing : cursor.isSelfClosingEndAhead = false :=
        isSelfClosingEndAhead_eq_false atEnd (by simp)
      refine ⟨notClosing, ?_⟩
      rw [skipTagEnd, if_neg (by simp [notClosing]), skipPast_eq atEnd, advance_of_ahead_cons atEnd]
  | true =>
      have closing : cursor.isSelfClosingEndAhead = true := isSelfClosingEndAhead_of_ahead ahead
      refine ⟨closing, ?_⟩
      rw [skipTagEnd, if_pos closing, ahead_advanceBy, ahead]
      rfl

/-- The opening tag of an element is read as it is written, and nothing after it. -/
theorem readOpeningTag_eq {name : List Char} {attributes : List WrittenAttribute}
    {closesItself : Bool} {rest : List Char} {cursor : Cursor}
    (ahead : cursor.ahead = writeOpeningTag name attributes closesItself ++ rest)
    (legalName : ∀ character ∈ name, isNameCharacter character)
    (legal : AttributesAreLegal attributes (tagEndStart closesItself)) :
    cursor.readOpeningTag.1.reword .unplaced =
        ⟨writtenTag name attributes, closesItself, ⟨0, 0⟩⟩ ∧
      cursor.readOpeningTag.2.ahead = rest := by
  have opened : cursor.ahead = ['<'] ++
      (name ++ (writeAttributes attributes ++ (writeTagEnd closesItself ++ rest))) := by
    simpa [writeOpeningTag] using ahead
  obtain ⟨atName, passesAngle, nameAhead⟩ := exists_passes opened
  obtain ⟨afterName, passesName, attributesAhead⟩ := exists_passes nameAhead
  have named := readName_eq passesName legalName (isOn_nameCharacter_of_attributes attributesAhead)
  obtain ⟨read, endAhead⟩ := readAttributes_eq legal (.inl attributesAhead)
  obtain ⟨isClosing, restAhead⟩ := skipTagEnd_eq endAhead
  have plain := Attribute.filterMap_plain?_reword .unplaced afterName.readAttributes.1
  have directives := Attribute.filterMap_directive?_reword .unplaced afterName.readAttributes.1
  rw [read] at plain directives
  simp only [readOpeningTag, skip_eq passesAngle opened, named, isClosing, OpeningTag.reword,
    Tag.reword, ← plain, ← directives]
  exact ⟨rfl, restAhead⟩

/-- The closing tag of an element is read as it is written, and nothing after it. -/
theorem readClosingTag_eq {name : List Char} {rest : List Char} {cursor : Cursor}
    (ahead : cursor.ahead = writeClosingTag name ++ rest)
    (legalName : ∀ character ∈ name, isNameCharacter character) :
    cursor.readClosingTag.1.reword .unplaced = ⟨String.ofList name, .start, ⟨0, 0⟩⟩ ∧
      cursor.readClosingTag.2.ahead = rest := by
  have opened : cursor.ahead = closingTagOpener ++ (name ++ '>' :: rest) := by
    rw [ahead, writeClosingTag, show closingTagOpener = ['<', '/'] from rfl]
    simp
  obtain ⟨atName, passesOpener, nameAhead⟩ := exists_passes opened
  obtain ⟨afterName, passesName, endAhead⟩ := exists_passes nameAhead
  have ends : afterName.isOn isNameCharacter = false := by
    rw [isOn_of_ahead_cons endAhead]
    decide
  simp only [readClosingTag, skip_eq passesOpener opened, readName_eq passesName legalName ends,
    skipPast_eq endAhead, advance_of_ahead_cons endAhead]
  exact ⟨rfl, trivial⟩

end Cursor

end TemplateMarkup
