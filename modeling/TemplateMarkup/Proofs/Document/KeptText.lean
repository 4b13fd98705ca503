import TemplateMarkup.Proofs.Document.TextSpacing
import TemplateMarkup.Proofs.Markup.RunText

/-!
# Texts that are kept as they are

Below an element that keeps white space every text is what is written there.  Text that is read as
markup has lost its comments and nothing else.  A raw body has lost the white space at its ends, there
as everywhere.
-/

namespace TemplateMarkup

open CharacterClass

/-- A text in an element is what is written at some place of a source.  The function says what becomes
of a raw body. -/
inductive IsWrittenAs (ofBody : List Char → List Char) (source : String) (start : Position)
    (family : Family) : String → Position → Prop where
  /-- The text is what is written after a tag up to the next tag, or up to the end of the source,
  without comments. -/
  | markup {turn : Turn} {written : List Char} (notRaw : family.hasRawBody = false)
      (isTurn : turn ∈ Template.turns source start)
      (isThere : source.toList = turn.place.behind.reverse ++ written ++ turn.tagPlace.ahead)
      (ends : turn.tagPlace.IsAtTag) :
      IsWrittenAs ofBody source start family (String.ofList (withoutComments written))
        turn.place.position
  /-- The text is made of what is written after the element's own tag up to its closing tag, or up to
  the end of the source. -/
  | body {turn : Turn} {opening : OpeningTag} {body : RawBody} {closing : Cursor}
      (isRaw : family.hasRawBody) (isTurn : turn ∈ Template.turns source start)
      (isTag : turn.opening? = some (opening, some body))
      (isOwn : family.lineage.head? = some opening.tag)
      (isThere : source.toList = turn.tagPlace.readOpeningTag.2.behind.reverse ++
        body.text.toList ++ closing.ahead)
      (ends : closing.ahead = [] ∨
        closing.isNamedTagAhead Cursor.closingTagOpener opening.tag.name.toList) :
      IsWrittenAs ofBody source start family (String.ofList (ofBody body.text.toList))
        turn.tagPlace.readOpeningTag.2.position

theorem IsWrittenAs.of_lineage {ofBody : List Char → List Char} {source : String}
    {start position : Position} {lineage : List Tag} {children children' : List NodeHead}
    {content : String} (isWritten : IsWrittenAs ofBody source start ⟨lineage, children⟩ content position) :
    IsWrittenAs ofBody source start ⟨lineage, children'⟩ content position := by
  cases isWritten with
  | markup notRaw isTurn isThere ends => exact .markup notRaw isTurn isThere ends
  | body isRaw isTurn isTag isOwn isThere ends => exact .body isRaw isTurn isTag isOwn isThere ends

/-- A text in an element with a raw body is made of a raw body. -/
theorem IsWrittenAs.exists_body {ofBody : List Char → List Char} {source : String}
    {start position : Position} {family : Family} {content : String}
    (isWritten : IsWrittenAs ofBody source start family content position)
    (isRaw : family.hasRawBody) :
    ∃ turn ∈ Template.turns source start, ∃ opening body, turn.opening? = some (opening, some body) ∧
      content = String.ofList (ofBody body.text.toList) := by
  cases isWritten with
  | markup notRaw => exact absurd isRaw (by simp [notRaw])
  | body _ isTurn isTag => exact ⟨_, isTurn, _, _, isTag, rfl⟩

theorem Cursor.IsWithin.eq_append {source text : List Char} {start stop : Cursor}
    (within : start.IsWithin source) (passes : Passes text start stop) :
    source = start.behind.reverse ++ text ++ stop.ahead := by
  rw [← within.source_eq, Cursor.source, passes.ahead_eq, List.append_assoc]

/-- A raw body that leaves a text in its element leaves its trimmed text there. -/
theorem RawBody.mem_children {body : Option RawBody} {content : String} {position : Position}
    (member : NodeHead.text content position ∈ (children body).map Node.head) :
    ∃ read, body = some read ∧ content = read.trimmed ∧ position = read.position := by
  unfold children at member
  split at member
  · cases member
  · next read =>
      split at member
      · cases member
      · cases List.mem_singleton.mp member
        exact ⟨read, rfl, rfl, rfl⟩

namespace Turn

variable {source : String} {start : Position} {turn : Turn}

theorem isWithin : ∀ turn ∈ Template.turns source start, turn.place.IsWithin source.toList :=
  fun turn isTurn => (Cursor.isWithin_atStart source start).of_leadsTo
    (leadsTo_of_mem_onwards turn isTurn)

/-- A raw body is what is written from its tag up to its end. -/
theorem exists_of_body {opening : OpeningTag} {body : RawBody}
    (isTag : turn.opening? = some (opening, some body)) : ∃ kind,
      opening = turn.tagPlace.readOpeningTag.1 ∧
        body = (turn.tagPlace.readOpeningTag.2.readRawBody kind opening.tag.name.toList).1 := by
  unfold opening? at isTag
  split at isTag
  · have isStart := Option.some.inj isTag
    unfold Cursor.readElementStart at isStart
    dsimp only at isStart
    split at isStart
    · cases isStart
    · next kind isKind =>
        cases isStart
        exact ⟨kind, rfl, rfl⟩
  · cases isTag

/-- The element of a tag that comes with a raw body has one. -/
theorem hasRawBody_begun {opening : OpeningTag} {body : RawBody} {children : List NodeHead}
    (isTag : turn.opening? = some (opening, some body)) :
    Family.hasRawBody ⟨opening.tag :: turn.assembly.lineage, children⟩ := by
  obtain ⟨parent, above, lineage⟩ := turn.assembly.exists_lineage_eq
  have isRaw : opening.rawKind?.isSome := (isSome_body isTag).symm
  rw [opening.isSome_rawKind?, Bool.and_eq_true] at isRaw
  rw [Family.hasRawBody, lineage]
  exact isRaw.2

/-- The only text that a turn adds is what remains of its run. -/
theorem mem_text_of_mem_added {content : String} {position : Position}
    (member : NodeHead.text content position ∈ turn.added) :
    NodeHead.text content position ∈ turn.text := by
  obtain ⟨after, isAdded, cases⟩ := turn.added_cases
  rw [isAdded] at member
  rcases List.mem_append.mp member with isText | isAfter
  · exact isText
  · rcases cases with ⟨-, rfl⟩ | ⟨opening, body, -, ⟨-, rfl⟩ | ⟨-, rfl⟩⟩ <;> simp at isAfter

theorem eq_of_mem_added {content : String} {position : Position}
    (member : NodeHead.text content position ∈ turn.added) :
    content = turn.keptText ∧ position = turn.run.position := by
  have isText := mem_text_of_mem_added member
  unfold text at isText
  split at isText
  · cases isText
  · simpa using isText

/-- Nothing is kept of a run if nothing is written there. -/
theorem isEmpty_keptText (passes : Cursor.Passes [] turn.place turn.tagPlace) :
    turn.keptText.isEmpty := by
  have isText : turn.run.text = String.ofList (withoutComments []) :=
    congrArg String.ofList (Cursor.readTextPieces_fst_eq passes)
  have noText : turn.run.text = "" := by
    rw [isText]
    simp [withoutComments]
  unfold keptText
  split
  · rw [noText]
    rfl
  · simp [noText, WhitespacePolicy.apply, WhitespacePolicy.edge, trimEnds]

/-- The text of a run is what is written there without comments. -/
theorem isWrittenAs_run {ofBody : List Char → List Char} {family : Family}
    (isTurn : turn ∈ Template.turns source start) (notRaw : family.hasRawBody = false) :
    IsWrittenAs ofBody source start family turn.run.text turn.run.position := by
  obtain ⟨written, passes⟩ := Cursor.leadsTo_readText turn.place
  have text : turn.run.text = String.ofList (withoutComments written) :=
    congrArg String.ofList (Cursor.readTextPieces_fst_eq passes)
  rw [text]
  exact .markup notRaw isTurn ((isWithin turn isTurn).eq_append passes) (Cursor.isAtTag_readText _)

/-- A raw body is what is passed over after its tag. -/
theorem exists_passes_body {opening : OpeningTag} {body : RawBody}
    (isTag : turn.opening? = some (opening, some body)) : ∃ closing,
    Cursor.Passes body.text.toList turn.tagPlace.readOpeningTag.2 closing ∧
      body.position = turn.tagPlace.readOpeningTag.2.position ∧
      (closing.ahead = [] ∨
        closing.isNamedTagAhead Cursor.closingTagOpener opening.tag.name.toList) := by
  obtain ⟨kind, -, isBody⟩ := exists_of_body isTag
  obtain ⟨written, passes⟩ := Cursor.leadsTo_bodyEnd turn.tagPlace.readOpeningTag.2 kind
    opening.tag.name.toList
  have text : body.text.toList = written := by
    rw [isBody, ← passes.textSince_eq]
    exact String.toList_ofList
  have position : body.position = turn.tagPlace.readOpeningTag.2.position := by
    rw [isBody]
    rfl
  exact ⟨_, text ▸ passes, position, Cursor.ahead_seekBodyEnd kind _ 0 none turn.tagPlace.readOpeningTag.2⟩

theorem isWrittenAs_body {ofBody : List Char → List Char} {family : Family} {opening : OpeningTag}
    {body : RawBody} (isTurn : turn ∈ Template.turns source start)
    (isTag : turn.opening? = some (opening, some body)) (isRaw : family.hasRawBody)
    (isOwn : family.lineage.head? = some opening.tag) :
    IsWrittenAs ofBody source start family (String.ofList (ofBody body.text.toList))
      body.position := by
  obtain ⟨closing, passes, position, ends⟩ := exists_passes_body isTag
  have within := (Cursor.isWithin_atStart source start).of_leadsTo
    ((Template.leadsTo_tagPlace isTurn).trans (Cursor.leadsTo_readOpeningTag _))
  rw [position]
  exact .body isRaw isTurn isTag isOwn (within.eq_append passes) ends

end Turn

namespace Template

variable {source : String} {start : Position} {sourcePath : Option String} {template : Template}

/-- Every text below an element that keeps white space is what is written there. -/
theorem isWrittenAs_of_keepsWhitespace (isParsed : parse source start sourcePath = .ok template) :
    ∀ component ∈ template.components, ∀ family ∈ component.families,
      (family.lineage.any fun tag => TagName.keepsWhitespace tag.name) →
        ∀ content position, .text content position ∈ family.children →
          IsWrittenAs (trimEnds isWhitespace) source start family content position := by
  suffices holds : ∀ family ∈ template.families,
      (family.lineage.any fun tag => TagName.keepsWhitespace tag.name) →
        ∀ content position, .text content position ∈ family.children →
          IsWrittenAs (trimEnds isWhitespace) source start family content position from
    fun component isComponent family member =>
      holds family (mem_families.mpr ⟨component, isComponent, member⟩)
  refine of_mem_families isParsed (fun _ => nofun) (fun turn isTurn family isBegun _ => ?_)
    fun turn isTurn holds keeps content position member => ?_
  · obtain ⟨opening, body, isTag, ⟨-, rfl⟩ | ⟨-, rfl⟩⟩ := Turn.mem_begun isBegun
    · intro content position member
      obtain ⟨read, rfl, rfl, rfl⟩ := RawBody.mem_children member
      rw [RawBody.trimmed, WhitespacePolicy.apply_rawBody]
      exact Turn.isWrittenAs_body isTurn isTag (Turn.hasRawBody_begun isTag) rfl
    · exact nofun
  · rcases List.mem_append.mp member with isOld | isNew
    · exact (holds keeps content position isOld).of_lineage
    · -- The element is open above the text, so the assembly keeps white space when it adds the text.
      obtain ⟨rfl, rfl⟩ := Turn.eq_of_mem_added isNew
      have isKept : turn.keptText = turn.run.text :=
        if_pos (Turn.keepsWhitespace_of_lineage isTurn keeps)
      rw [isKept]
      exact Turn.isWrittenAs_run isTurn (Turn.hasRawBody_lineage isTurn _)

/-- A text below a text area is kept up to the comment in it. -/
theorem isWrittenAs_textArea : ∃ template,
    parse "<textarea> a <!-- b --> <i> c</i></textarea>" .start none = .ok template ∧
      (template.families.flatMap (·.children)).filterMap NodeHead.text? =
        [(" a  ", ⟨1, 11⟩), (" c", ⟨1, 28⟩)] ∧
      ∀ component ∈ template.components, ∀ family ∈ component.families,
        (family.lineage.any fun tag => TagName.keepsWhitespace tag.name) →
          ∀ content position, .text content position ∈ family.children →
            IsWrittenAs (trimEnds isWhitespace) "<textarea> a <!-- b --> <i> c</i></textarea>" .start
              family content position := by
  have isParsed : (parse "<textarea> a <!-- b --> <i> c</i></textarea>" .start none).map
      (fun template => (template.families.flatMap (·.children)).filterMap NodeHead.text?) =
        .ok [(" a  ", ⟨1, 11⟩), (" c", ⟨1, 28⟩)] := by decide +kernel
  obtain ⟨template, isTemplate, texts⟩ := exists_ok_of_map isParsed
  exact ⟨template, isTemplate, texts, isWrittenAs_of_keepsWhitespace isTemplate⟩

/-- The white space at the ends of a raw body is lost even where white space is kept. -/
theorem not_isWrittenAs_rawBody :
    ¬ ∀ (source : String) (start : Position) (sourcePath : Option String) (template : Template),
      parse source start sourcePath = .ok template →
        ∀ component ∈ template.components, ∀ family ∈ component.families,
          (family.lineage.any fun tag => TagName.keepsWhitespace tag.name) →
            ∀ content position, .text content position ∈ family.children →
              IsWrittenAs id source start family content position := by
  intro kept
  let tag : Tag := ⟨"pre", [], [⟨"raw", none, none, false, false, ⟨1, 6⟩⟩], .start⟩
  have isParsed : (parse "<pre #raw> x </pre>" .start none).map families =
      .ok [⟨[.bare "" .start], [.element tag]⟩, ⟨[tag, .bare "" .start], [.text "x" ⟨1, 11⟩]⟩] := by
    decide +kernel
  obtain ⟨template, isTemplate, areFamilies⟩ := exists_ok_of_map isParsed
  have member : ⟨[tag, .bare "" .start], [.text "x" ⟨1, 11⟩]⟩ ∈ template.families := by
    rw [areFamilies]
    exact .tail _ List.mem_cons_self
  obtain ⟨component, isComponent, member⟩ := mem_families.mp member
  have isWritten := kept _ _ _ template isTemplate component isComponent _ member rfl "x" ⟨1, 11⟩
    List.mem_cons_self
  have spaced : ∀ turn ∈ turns "<pre #raw> x </pre>" .start,
      turn.opening?.all fun start => start.2.all fun body => body.text != "x" := by decide +kernel
  obtain ⟨turn, isTurn, opening, body, isTag, content⟩ := isWritten.exists_body rfl
  have other := spaced turn isTurn
  rw [isTag] at other
  simp [content] at other

end Template

end TemplateMarkup
