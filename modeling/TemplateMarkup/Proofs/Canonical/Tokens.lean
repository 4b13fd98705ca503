import TemplateMarkup.Proofs.Canonical.Scan

/-!
# Tokens of a written forest

Splitting a written forest into tokens gives the tokens of its nodes, one after the other, with a text
run before every tag.  The induction is on the forest, for any text that is still pending and any rest
at which the forest can end: the closing tag of the element around it, or the end of the source.
-/

namespace TemplateMarkup

open CharacterClass

namespace WrittenAttribute

theorem directive?_toAttribute_of_not_hasName {written : WrittenAttribute} {name : String}
    (other : name ≠ Directive.bindingName) (notNamed : ¬ written.label.HasName name)
    {directive : Directive} (isDirective : written.toAttribute.directive? = some directive) :
    directive.name ≠ name := by
  rcases written with ⟨label, value⟩
  cases label with
  | plain written => cases isDirective
  | binding bound =>
      cases isDirective
      exact other.symm
  | directive written modifier =>
      cases isDirective
      exact notNamed

end WrittenAttribute

theorem directive?_writtenTag {name : List Char} {attributes : List WrittenAttribute}
    {sought : String} (other : sought ≠ Directive.bindingName)
    (notNamed : ∀ written ∈ attributes, ¬ written.label.HasName sought) :
    (writtenTag name attributes).directive? sought = none := by
  unfold Tag.directive? writtenTag
  rw [List.find?_eq_none]
  intro directive member same
  obtain ⟨written, isWritten, isDirective⟩ := List.mem_filterMap.mp member
  obtain ⟨source, isSource, rfl⟩ := List.mem_map.mp isWritten
  have different := WrittenAttribute.directive?_toAttribute_of_not_hasName other
    (notNamed source isSource) isDirective
  exact different (beq_iff_eq.mp same)

theorem IsOrdinaryName.beq_eq_false {name : List Char} (ordinary : IsOrdinaryName name)
    (special : String) (isSpecial : special ∈ ["script", "style", "link", "slot"]) :
    (String.ofList name == special) = false :=
  beq_eq_false_iff_ne.mpr fun same => ordinary.2.2 (same ▸ isSpecial)

theorem rawKind?_writtenTag {name : List Char} {attributes : List WrittenAttribute}
    {closesItself : Bool} {span : Span} (ordinary : IsOrdinaryName name)
    (notRaw : ∀ written ∈ attributes, ¬ written.label.HasName "raw") :
    OpeningTag.rawKind? ⟨writtenTag name attributes, closesItself, span⟩ = none := by
  have notScript : ((writtenTag name attributes).name == "script") = false :=
    ordinary.beq_eq_false "script" (by decide)
  have notStyle : ((writtenTag name attributes).name == "style") = false :=
    ordinary.beq_eq_false "style" (by decide)
  have notNested : (writtenTag name attributes).hasDirective "raw" = false := by
    rw [Tag.hasDirective, directive?_writtenTag (by decide) notRaw, Option.isSome_none]
  unfold OpeningTag.rawKind?
  simp only [notScript, notStyle, notNested, Bool.false_eq_true, if_false, ite_self]

/-- A text run that has no position. -/
def textToken (content : List Char) (ending : TextEnd) : Token :=
  .text ⟨String.ofList content, ending, .start⟩

namespace WrittenNode

mutual

/-- The tokens of an element, from its opening tag to its closing one. -/
def tokens : WrittenNode → List Token
  | text _ => []
  | element name attributes closesItself children =>
      .opening ⟨writtenTag name attributes, closesItself, ⟨0, 0⟩⟩ none ::
        if endsAtOnce name closesItself then []
        else
          tokensAll [] children .closingTag ++ [.closing ⟨String.ofList name, .start, ⟨0, 0⟩⟩]

/-- The tokens of siblings after a text that is still pending. -/
def tokensAll (pending : List Char) : List WrittenNode → TextEnd → List Token
  | [], ending => [textToken pending ending]
  | text content :: rest, ending => tokensAll (pending ++ content) rest ending
  | element name attributes closesItself children :: rest, ending =>
      textToken pending .openingTag ::
        ((element name attributes closesItself children).tokens ++ tokensAll [] rest ending)

end

end WrittenNode

namespace Cursor

/-- The tokens after a text run. -/
def tokensAtTag (cursor : Cursor) : List Token :=
  if cursor.isOpeningTagAhead then
    let start := cursor.readElementStart
    .opening start.1.1 start.1.2 :: start.2.tokens
  else if cursor.isClosingTagAhead then
    let closing := cursor.readClosingTag
    .closing closing.1 :: closing.2.tokens
  else
    []

theorem tokens_eq (cursor : Cursor) :
    cursor.tokens = .text cursor.readText.1 :: cursor.readText.2.tokensAtTag := by
  rw [tokens]
  rfl

/-- The tokens ahead without their positions. -/
def unplacedTokens (cursor : Cursor) : List Token :=
  cursor.tokens.map (·.reword .unplaced)

/-- The tokens after a text run without their positions. -/
def unplacedTokensAtTag (cursor : Cursor) : List Token :=
  cursor.tokensAtTag.map (·.reword .unplaced)

/-- A forest ends at the end of the source or at a closing tag. -/
inductive EndsForest : TextEnd → List Char → Prop where
  | endOfInput : EndsForest .endOfInput []
  | closingTag (rest : List Char) : EndsForest .closingTag ('<' :: '/' :: rest)

theorem isOpeningTagAhead_of_ahead {cursor : Cursor} {first : Char} {rest : List Char}
    (ahead : cursor.ahead = '<' :: first :: rest) :
    cursor.isOpeningTagAhead = startsTagName first := by
  simp [isOpeningTagAhead, isOn_of_ahead_cons ahead, peek?, ahead]

theorem isClosingTagAhead_of_ahead {cursor : Cursor} {rest : List Char}
    (ahead : cursor.ahead = '<' :: '/' :: rest) : cursor.isClosingTagAhead = true := by
  rw [isClosingTagAhead, show closingTagOpener = ['<', '/'] from rfl]
  exact startsWith_of_ahead ahead

theorem EndsForest.textEnd_eq {ending : TextEnd} {cursor : Cursor}
    (ends : EndsForest ending cursor.ahead) : cursor.IsAtTag ∧ cursor.textEnd = ending := by
  generalize ahead : cursor.ahead = tail at ends
  cases ends with
  | endOfInput =>
      have notOpening : cursor.isOpeningTagAhead = false := by
        simp [isOpeningTagAhead, isOn_of_ahead_nil ahead]
      have notClosing : cursor.isClosingTagAhead = false :=
        startsWith_cons_eq_false (by simp [ahead])
      exact ⟨.inl ahead, by simp [textEnd, notOpening, notClosing]⟩
  | closingTag rest =>
      have notOpening : cursor.isOpeningTagAhead = false := isOpeningTagAhead_of_ahead ahead
      have isClosing := isClosingTagAhead_of_ahead ahead
      exact ⟨.inr (.inr isClosing), by simp [textEnd, notOpening, isClosing]⟩

/-- A pending text is the first token, whatever tag follows. -/
theorem unplacedTokens_of_text {pending : List Char} {cursor place : Cursor} {ending : TextEnd}
    (passes : Passes pending cursor place) (noAngle : '<' ∉ pending) (atTag : place.IsAtTag)
    (ends : place.textEnd = ending) :
    cursor.unplacedTokens = textToken pending ending :: place.unplacedTokensAtTag := by
  rw [unplacedTokens, tokens_eq, readText_eq passes noAngle atTag, ends]
  rfl

theorem unplacedTokens_at_closingTag {name rest : List Char} {cursor : Cursor}
    (ahead : cursor.ahead = writeClosingTag name ++ rest)
    (legalName : ∀ character ∈ name, isNameCharacter character) :
    ∃ place : Cursor, place.ahead = rest ∧
      cursor.unplacedTokensAtTag =
        .closing ⟨String.ofList name, .start, ⟨0, 0⟩⟩ :: place.unplacedTokens := by
  have opener : cursor.ahead = '<' :: '/' :: (name ++ ['>'] ++ rest) := ahead
  have notOpening : cursor.isOpeningTagAhead = false := isOpeningTagAhead_of_ahead opener
  obtain ⟨read, restAhead⟩ := readClosingTag_eq ahead legalName
  refine ⟨cursor.readClosingTag.2, restAhead, ?_⟩
  rw [unplacedTokensAtTag, tokensAtTag, if_neg (by simp [notOpening]),
    if_pos (isClosingTagAhead_of_ahead opener), ← read]
  rfl

theorem unplacedTokens_at_openingTag {name rest : List Char} {attributes : List WrittenAttribute}
    {closesItself : Bool} {cursor : Cursor}
    (ahead : cursor.ahead = writeOpeningTag name attributes closesItself ++ rest)
    (ordinary : IsOrdinaryName name)
    (legal : AttributesAreLegal attributes (tagEndStart closesItself))
    (notRaw : ∀ written ∈ attributes, ¬ written.label.HasName "raw") :
    cursor.isOpeningTagAhead = true ∧
      ∃ place : Cursor, place.ahead = rest ∧
        cursor.unplacedTokensAtTag =
          .opening ⟨writtenTag name attributes, closesItself, ⟨0, 0⟩⟩ none ::
            place.unplacedTokens := by
  have isAhead : cursor.isOpeningTagAhead = true := by
    cases name with
    | nil => exact absurd ordinary.1 (by simp)
    | cons first name =>
        rw [isOpeningTagAhead_of_ahead ahead]
        exact ordinary.1
  obtain ⟨read, restAhead⟩ := readOpeningTag_eq ahead ordinary.2.1 legal
  have notRawKind : cursor.readOpeningTag.1.rawKind? = none := by
    rw [← OpeningTag.rawKind?_reword .unplaced, read]
    exact rawKind?_writtenTag ordinary notRaw
  have started : cursor.readElementStart = ((cursor.readOpeningTag.1, none),
      cursor.readOpeningTag.2) := by
    simp only [readElementStart, notRawKind]
  refine ⟨isAhead, cursor.readOpeningTag.2, restAhead, ?_⟩
  rw [unplacedTokensAtTag, tokensAtTag, if_pos isAhead, ← read, started]
  rfl

/-- The tokens of siblings, from a text that is still pending to the place where they end. -/
def ScansToTokens (nodes : List WrittenNode) : Prop :=
  ∀ {pending tail : List Char} {ending : TextEnd} {cursor : Cursor}, '<' ∉ pending →
    EndsForest ending tail → cursor.ahead = pending ++ (WrittenNode.writeAll nodes ++ tail) →
      ∃ place : Cursor, place.ahead = tail ∧
        cursor.unplacedTokens =
          WrittenNode.tokensAll pending nodes ending ++ place.unplacedTokensAtTag

theorem noAngle_nil : '<' ∉ ([] : List Char) :=
  List.not_mem_nil

/-- From the tag of an element to the rest after it. -/
theorem unplacedTokens_of_element {name : List Char} {attributes : List WrittenAttribute}
    {closesItself : Bool} {children : List WrittenNode} {rest : List Char} {cursor : Cursor}
    (scansChildren : ScansToTokens children)
    (canonical : (WrittenNode.element name attributes closesItself children).IsCanonical)
    (ahead : cursor.ahead =
      (WrittenNode.element name attributes closesItself children).write ++ rest) :
    cursor.isOpeningTagAhead = true ∧
      ∃ place : Cursor, place.ahead = rest ∧
        cursor.unplacedTokensAtTag =
          (WrittenNode.element name attributes closesItself children).tokens ++
            place.unplacedTokens := by
  obtain ⟨ordinary, legal, notRaw, -, -, -, -⟩ := canonical
  rw [WrittenNode.write, List.append_assoc] at ahead
  obtain ⟨isAhead, inside, insideAhead, opening⟩ :=
    unplacedTokens_at_openingTag ahead ordinary legal notRaw
  refine ⟨isAhead, ?_⟩
  rw [opening, WrittenNode.tokens]
  by_cases atOnce : endsAtOnce name closesItself = true
  · rw [if_pos atOnce, List.nil_append] at insideAhead
    rw [if_pos atOnce]
    exact ⟨inside, insideAhead, rfl⟩
  · rw [if_neg atOnce, List.append_assoc] at insideAhead
    rw [if_neg atOnce]
    obtain ⟨atClosing, closingAhead, body⟩ := scansChildren noAngle_nil (.closingTag _) insideAhead
    obtain ⟨after, afterAhead, closing⟩ :=
      unplacedTokens_at_closingTag closingAhead ordinary.2.1
    refine ⟨after, afterAhead, ?_⟩
    rw [body, closing, List.cons_append, List.append_assoc]
    rfl

theorem scansToTokens_of_canonical {nodes : List WrittenNode}
    (canonical : WrittenNode.AreCanonical nodes) : ScansToTokens nodes := by
  induction nodes using WrittenNode.forestInduction with
  | nil =>
      intro pending tail ending cursor noAngle ends ahead
      obtain ⟨place, passes, tailAhead⟩ := exists_passes ahead
      have tailAhead : place.ahead = tail := tailAhead
      obtain ⟨atTag, textEnds⟩ := EndsForest.textEnd_eq (tailAhead.symm ▸ ends)
      refine ⟨place, tailAhead, ?_⟩
      rw [unplacedTokens_of_text passes noAngle atTag textEnds]
      rfl
  | text content rest ih =>
      intro pending tail ending cursor noAngle ends ahead
      obtain ⟨⟨-, noAngleInside, -⟩, canonicalRest⟩ := canonical
      rw [WrittenNode.writeAll, WrittenNode.write, List.append_assoc, ← List.append_assoc] at ahead
      rw [WrittenNode.tokensAll]
      refine ih canonicalRest ?_ ends ahead
      intro member
      rcases List.mem_append.mp member with before | inside
      · exact noAngle before
      · exact noAngleInside inside
  | element name attributes closesItself children rest ihChildren ihRest =>
      intro pending tail ending cursor noAngle ends ahead
      obtain ⟨canonicalElement, canonicalRest⟩ := canonical
      have canonicalChildren : WrittenNode.AreCanonical children :=
        canonicalElement.2.2.2.2.2.2
      rw [WrittenNode.writeAll, List.append_assoc] at ahead
      obtain ⟨atTag, passes, elementAhead⟩ := exists_passes ahead
      obtain ⟨isOpening, after, afterAhead, element⟩ :=
        unplacedTokens_of_element (ihChildren canonicalChildren) canonicalElement elementAhead
      obtain ⟨place, tailAhead, later⟩ := ihRest canonicalRest noAngle_nil ends afterAhead
      refine ⟨place, tailAhead, ?_⟩
      have textEnds : atTag.textEnd = .openingTag := by simp [textEnd, isOpening]
      rw [unplacedTokens_of_text passes noAngle (.inr (.inl isOpening)) textEnds, element, later,
        WrittenNode.tokensAll, List.cons_append, List.append_assoc]

end Cursor

/-- The tokens of a source that is a written forest. -/
theorem Token.scan_writeAll {forest : List WrittenNode} (canonical : WrittenNode.AreCanonical forest)
    (start : Position) :
    (scan (String.ofList (WrittenNode.writeAll forest)) start).map (·.reword .unplaced) =
      WrittenNode.tokensAll [] forest .endOfInput := by
  have ahead : (Cursor.atStart (String.ofList (WrittenNode.writeAll forest)) start).ahead =
      [] ++ (WrittenNode.writeAll forest ++ []) := by
    simp [Cursor.atStart]
  obtain ⟨place, atEnd, tokens⟩ :=
    Cursor.scansToTokens_of_canonical canonical Cursor.noAngle_nil .endOfInput ahead
  have noTag : place.tokensAtTag = [] := by
    have notOpening : place.isOpeningTagAhead = false := by
      simp [Cursor.isOpeningTagAhead, Cursor.isOn_of_ahead_nil atEnd]
    have notClosing : place.isClosingTagAhead = false :=
      Cursor.startsWith_cons_eq_false (by simp [atEnd])
    simp [Cursor.tokensAtTag, notOpening, notClosing]
  rw [Cursor.unplacedTokensAtTag, noTag, List.map_nil, List.append_nil] at tokens
  exact tokens

end TemplateMarkup
