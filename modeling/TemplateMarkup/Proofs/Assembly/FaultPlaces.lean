import TemplateMarkup.Proofs.Assembly.Faults
import TemplateMarkup.Proofs.Assembly.Recording
import TemplateMarkup.Proofs.Markup.WrittenTags

/-!
# Where faults stand

The span of an error holds one tag, from its first character to its `>` or to the end of the source,
and the position of the error is where the span starts.  The text of the tag and the tags before it
say what is wrong: nothing is open of the name that a closing tag gives, or an earlier `template` tag
has declared the component that an opening tag declares.
-/

namespace TemplateMarkup

open CharacterClass

theorem Tag.componentName?_eq_some_iff {tag : Tag} {name : String} :
    tag.componentName? = some name ↔
      tag.name = "template" ∧ tag.argument? "component" = some name := by
  unfold componentName?
  split
  · next same => exact (and_iff_right (beq_iff_eq.mp same)).symm
  · next other => exact iff_of_false nofun fun both => other (beq_iff_eq.mpr both.1)

/-- The message about a closing tag shows the tag. -/
theorem Assembly.exists_message_unmatched (closing : ClosingTag) : ∃ first last,
    (unmatched closing).fault.message = first ++ ("</" ++ closing.name ++ ">") ++ last := by
  by_cases isTemplate : closing.name = "template"
  · have isFault : (unmatched closing).fault = .unexpectedScopeClose := if_pos isTemplate
    have message : StructuralFault.unexpectedScopeClose.message = "Unexpected closing " ++
        ("</" ++ "template" ++ ">") ++ " tag outside of an inline component" := by decide +kernel
    rw [isFault, isTemplate, message]
    exact ⟨_, _, rfl⟩
  · have isFault : (unmatched closing).fault = .unmatchedClosingTag closing.name := if_neg isTemplate
    have message : (StructuralFault.unmatchedClosingTag closing.name).message =
        "Unexpected closing tag </" ++ closing.name ++ "> with no matching open element" := rfl
    refine ⟨"Unexpected closing tag ", " with no matching open element", ?_⟩
    rw [isFault, message, ← String.toList_inj]
    simp

theorem Assembly.code_unmatched (closing : ClosingTag) :
    (unmatched closing).fault.code = "unexpected-scope-close" ↔ closing.name = "template" := by
  unfold unmatched
  by_cases isTemplate : closing.name = "template"
  · rw [if_pos isTemplate]
    exact iff_of_true rfl isTemplate
  · have otherCode : "unmatched-closing-tag" ≠ "unexpected-scope-close" := by decide
    rw [if_neg isTemplate]
    exact iff_of_false otherCode isTemplate

namespace Turn

/-- The turn's tag is a `template` tag whose first `component` directive has this argument. -/
def Declares (turn : Turn) (name : String) : Prop :=
  ∃ opening body, turn.opening? = some (opening, body) ∧ opening.tag.name = "template" ∧
    opening.tag.argument? "component" = some name

/-- The text is a closing tag of a name of which nothing is open, and the fault says so. -/
structure IsStray (turn : Turn) (text : List Char) (fault : StructuralFault) (name : String) :
    Prop where
  starts : StartsWithName ("</".toList ++ name.toList) text
  isName : ∀ character ∈ name.toList, isNameCharacter character
  /-- There is no `>` in the text but at its end. -/
  noAngle : '>' ∉ text.dropLast
  /-- The name is that of no open element, nor `template` if an inline component is open. -/
  notOpen : name ∉ turn.withText.openNames
  message : ∃ first last, fault.message = first ++ ("</" ++ name ++ ">") ++ last
  code : fault.code = "unexpected-scope-close" ↔ name = "template"

/-- The text is a tag that declares a component that has been declared by an earlier turn. -/
structure Redeclares (turn : Turn) (earlier : List Turn) (text : List Char) (name : String) :
    Prop where
  starts : StartsWithName "<template".toList text
  declares : turn.Declares name
  declared : ∃ first ∈ earlier, first.Declares name

/-- What the text of a tag and the turns before it have to do with the fault of the tag. -/
def Explains (turn : Turn) (earlier : List Turn) (text : List Char) : StructuralFault → Prop
  | .unmatchedClosingTag name => turn.IsStray text (.unmatchedClosingTag name) name
  | .unexpectedScopeClose => turn.IsStray text .unexpectedScopeClose "template"
  | .duplicateComponent name => turn.Redeclares earlier text name

variable {turn : Turn} {error : ParseError} {name : String}

theorem declares_of_declared? {tag : Tag} (declared : turn.declared? = some (name, tag)) :
    turn.Declares name := by
  obtain ⟨opening, body, isTag, declares, -⟩ := exists_of_declared? declared
  obtain ⟨isTemplate, argument⟩ := Tag.componentName?_eq_some_iff.mp declares
  exact ⟨opening, body, isTag, isTemplate, argument⟩

/-- Where an assembly has a component, an earlier turn has declared it. -/
theorem exists_declares {earlier : List Turn} {assembly : Assembly}
    (has : assembly.HasEntered (earlier.flatMap entries)) (isDeclared : name ∈ assembly.components.names) :
    ∃ first ∈ earlier, first.Declares name := by
  rw [has.declared, (filterMap_flatMap_entries earlier).2.2] at isDeclared
  obtain ⟨⟨_, tag⟩, member, rfl⟩ := List.mem_map.mp isDeclared
  obtain ⟨first, isEarlier, declared⟩ := List.mem_filterMap.mp member
  exact ⟨first, isEarlier, declares_of_declared? declared⟩

theorem explains_unmatched {closing : ClosingTag} {text : List Char}
    (starts : StartsWithName ("</".toList ++ closing.name.toList) text)
    (isName : ∀ character ∈ closing.name.toList, isNameCharacter character)
    (noAngle : '>' ∉ text.dropLast) (notOpen : closing.name ∉ turn.withText.openNames)
    (earlier : List Turn) :
    turn.Explains earlier text (Assembly.unmatched closing).fault := by
  have isStray : turn.IsStray text (Assembly.unmatched closing).fault closing.name :=
    ⟨starts, isName, noAngle, notOpen, Assembly.exists_message_unmatched closing,
      Assembly.code_unmatched closing⟩
  unfold Assembly.unmatched at isStray ⊢
  by_cases isTemplate : closing.name = "template"
  · rw [if_pos isTemplate, isTemplate] at isStray
    rw [if_pos isTemplate]
    exact isStray
  · rw [if_neg isTemplate] at isStray ⊢
    exact isStray

/-- A fault is explained by the text of its tag. -/
theorem exists_explains {earlier : List Turn} (isFault : turn.fault? = some error)
    (has : turn.assembly.HasEntered (earlier.flatMap entries)) :
    ∃ text, Cursor.Passes text turn.tagPlace turn.tagEnd ∧ turn.Explains earlier text error.fault := by
  unfold tagEnd
  rcases fault?_eq_some_iff.mp isFault with ⟨isOpening, fails⟩ | ⟨notOpening, isClosing, fails⟩
  · obtain ⟨name, declares, isDeclared, rfl⟩ := Assembly.exists_of_openTag_eq_error fails
    obtain ⟨text, passes, starts⟩ := Cursor.exists_passes_openingTag isOpening
    obtain ⟨isTemplate, argument⟩ := Tag.componentName?_eq_some_iff.mp declares
    have isOpening' : turn.tagPlace.readElementStart.1.1 = turn.tagPlace.readOpeningTag.1 :=
      congrArg Prod.fst (Cursor.fst_readElementStart _)
    rw [← isOpening', isTemplate] at starts
    rw [if_pos isOpening]
    exact ⟨text, passes, starts, ⟨_, _, if_pos isOpening, isTemplate, argument⟩,
      exists_declares (hasEntered_withText has) isDeclared⟩
  · obtain ⟨notOpen, rfl⟩ := Assembly.unmatched_of_closeTag_eq_error fails
    obtain ⟨text, passes, starts, isName, noAngle⟩ := Cursor.exists_passes_closingTag isClosing
    rw [if_neg (by simp [notOpening])]
    exact ⟨text, passes, explains_unmatched starts isName noAngle notOpen earlier⟩

/-- A tag ends with its `>` or at the end of the source. -/
theorem getLast?_of_passes {text : List Char}
    (passes : Cursor.Passes text turn.tagPlace turn.tagEnd) :
    text.getLast? = some '>' ∨ turn.tagEnd.ahead = [] := by
  by_cases whole : turn.TagIsWhole
  · obtain ⟨read, ahead⟩ := exists_angle_of_tagIsWhole whole
    rw [passes.eq_concat ahead]
    exact .inl List.getLast?_concat
  · right
    by_contra more
    refine whole ?_
    unfold TagIsWhole
    unfold tagEnd at more
    split at more
    · next isOpening =>
        rw [if_pos isOpening]
        exact Cursor.openingTagIsWhole_of_ahead more
    · next notOpening =>
        rw [if_neg notOpening]
        exact Cursor.closingTagIsWhole_of_ahead more

end Turn

/-- The span and the position of an error are those of the tag that is at fault.  The text before the
tag, the tag and the text after it make up the source. -/
structure ParseError.PointsAt (error : ParseError) (source : String) (start : Position)
    (earlier : List Turn) (turn : Turn) (before text after : List Char) : Prop where
  turns_eq : Template.turns source start = earlier ++ [turn]
  source_eq : source.toList = before ++ (text ++ after)
  spanStart : error.span.start.toNat = byteLength before
  spanStop : error.span.stop.toNat = byteLength (before ++ text)
  inOrder : error.span.start ≤ error.span.stop ∧ error.span.stop.toNat ≤ byteLength source.toList
  slice : sliceBytes? error.span.start.toNat error.span.stop.toNat source.toList = some text
  position : error.position = start.past (text ++ after).head? before
  /-- The text is what the reader of the tag passes over. -/
  isTag : Cursor.Passes text turn.tagPlace turn.tagEnd
  isWhole : text.getLast? = some '>' ∨ after = []
  explained : turn.Explains earlier text error.fault

namespace Template

variable {source : String} {start : Position} {sourcePath : Option String} {error : ParseError}

/-- Every error points at the tag that causes it. -/
theorem exists_pointsAt (small : byteLength source.toList < UInt32.size)
    (fails : parse source start sourcePath = .error error) :
    ∃ earlier turn before text after,
      error.PointsAt source start earlier turn before text after := by
  obtain ⟨earlier, turn, turns, isFault⟩ := exists_fault fails
  obtain ⟨text, passes, explained⟩ := Turn.exists_explains isFault (hasEntered_turn turns)
  have isTurn : turn ∈ Template.turns source start := turns ▸ List.mem_append_cons_self
  obtain ⟨before, reached⟩ := leadsTo_tagPlace isTurn
  have within := (Cursor.isWithin_atStart source start).of_passes reached
  have source_eq : source.toList = before ++ (text ++ turn.tagEnd.ahead) := by
    rw [← passes.ahead_eq]
    exact reached.ahead_eq
  have startOffset : turn.tagPlace.offset = byteLength before := by
    rw [reached.offset_eq]
    exact Nat.zero_add _
  have stopOffset : turn.tagEnd.offset = byteLength (before ++ text) := by
    rw [passes.offset_eq, startOffset, byteLength_append]
  have lengths : byteLength (before ++ text) ≤ byteLength source.toList := by
    rw [source_eq, ← List.append_assoc, byteLength_append (before ++ text)]
    exact Nat.le_add_right _ _
  have inOrder : byteLength before ≤ byteLength (before ++ text) := by
    rw [byteLength_append]
    exact Nat.le_add_right _ _
  obtain ⟨position, span⟩ := Turn.span_of_fault? isFault
  have spanStart : error.span.start.toNat = byteLength before := by
    rw [span, ← startOffset]
    exact UInt32.toNat_ofNat_of_lt (by rw [startOffset]; omega)
  have spanStop : error.span.stop.toNat = byteLength (before ++ text) := by
    rw [span, ← stopOffset]
    exact UInt32.toNat_ofNat_of_lt (by rw [stopOffset]; omega)
  refine ⟨earlier, turn, before, text, turn.tagEnd.ahead, turns, source_eq, spanStart, spanStop,
    ⟨?_, ?_⟩, ?_, ?_, passes, Turn.getLast?_of_passes passes, explained⟩
  · rw [UInt32.le_iff_toNat_le, spanStart, spanStop]
    exact inOrder
  · rw [spanStop]
    exact lengths
  · rw [spanStart, spanStop, ← startOffset, ← stopOffset]
    exact passes.sliceBytes?_eq within
  · rw [position, ← passes.ahead_eq]
    exact reached.position_eq

/-- A component that is declared once more, by a tag that the end of the source cuts off. -/
def twiceDeclaredSource : String :=
  "é<template #component=\"a\"/>\r\n<template #component:a"

theorem exists_pointsAt_twiceDeclared : ∃ error earlier turn before text after,
    parse twiceDeclaredSource ⟨3, 5⟩ none = .error error ∧
      error = ⟨.duplicateComponent "a", ⟨4, 1⟩, ⟨30, 52⟩⟩ ∧
      error.PointsAt twiceDeclaredSource ⟨3, 5⟩ earlier turn before text after := by
  have isFailure : (parse twiceDeclaredSource ⟨3, 5⟩ none).map (fun _ => ()) =
      .error ⟨.duplicateComponent "a", ⟨4, 1⟩, ⟨30, 52⟩⟩ := by decide +kernel
  have fails := eq_error_of_map isFailure
  obtain ⟨earlier, turn, before, text, after, pointsAt⟩ := exists_pointsAt (by decide +kernel) fails
  exact ⟨_, earlier, turn, before, text, after, fails, rfl, pointsAt⟩

end Template

end TemplateMarkup
