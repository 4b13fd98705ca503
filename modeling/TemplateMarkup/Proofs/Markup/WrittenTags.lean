import TemplateMarkup.Proofs.Markup.Movement
import TemplateMarkup.Proofs.Markup.Relocation
import TemplateMarkup.Proofs.Text.Trimming

/-!
# What is written at a tag

Where a tag or an attribute has been read, it stands in the source: its name, with the marks that belong
to it, and after the name the end of the source or a character that no name holds.
-/

namespace TemplateMarkup

open CharacterClass

/-- No name goes on here. -/
def EndsName (after : List Char) : Prop :=
  after.head?.any isNameCharacter = false

theorem EndsName.of_append {first rest : List Char} (ends : EndsName (first ++ rest)) :
    EndsName first := by
  cases first with
  | nil => rfl
  | cons character first => exact ends

/-- The text starts with a name, marks included, that does not go on. -/
def StartsWithName (name text : List Char) : Prop :=
  ∃ after, text = name ++ after ∧ EndsName after

/-- The mark and the name of a directive, as they are written. -/
inductive Directive.IsWrittenAs (directive : Directive) : List Char → Prop where
  | binding (isBinding : directive.name = bindingName) :
      IsWrittenAs directive (':' :: (directive.modifier.map String.toList).getD [])
  | named : directive.modifier = none → IsWrittenAs directive ('#' :: directive.name.toList)
  | modified {modifier : String} : directive.modifier = some modifier →
      IsWrittenAs directive ('#' :: (directive.name.toList ++ ':' :: modifier.toList))

/-- The name of an attribute, with the marks that belong to it. -/
def Attribute.IsWrittenAs : Attribute → List Char → Prop
  | .plain written, text => text = written.name.toList
  | .directive written, text => written.IsWrittenAs text

/-- A directive is written as a sigil and what stands after it. -/
theorem Attribute.isWrittenAs_directiveOf {sigil : Char} (isSigil : sigil = ':' ∨ sigil = '#')
    (written : List Char) (value : Option (List Char)) (position : Position) :
    (directiveOf sigil written value position).IsWrittenAs (sigil :: written) := by
  rcases isSigil with rfl | rfl
  · have isText : ((directiveOf ':' written value position).modifier.map String.toList).getD [] =
        written := by
      cases written with
      | nil => rfl
      | cons character rest => exact String.toList_ofList
    have isBinding : (directiveOf ':' written value position).IsWrittenAs _ := .binding rfl
    rwa [isText] at isBinding
  · have parts := List.takeWhile_append_dropWhile (p := (· != ':')) (l := written)
    have isName : (directiveOf '#' written value position).name.toList =
        written.takeWhile (· != ':') := by
      show (splitModifier written).1.toList = _
      unfold splitModifier
      cases written.dropWhile (· != ':') <;> exact String.toList_ofList
    cases rest : written.dropWhile (· != ':') with
    | nil =>
        have noModifier : (directiveOf '#' written value position).modifier = none := by
          show (splitModifier written).2 = none
          rw [splitModifier, rest]
        have isNamed := Directive.IsWrittenAs.named noModifier
        rw [rest, List.append_nil] at parts
        rwa [isName, parts] at isNamed
    | cons colon modifier =>
        have isColon : colon = ':' := eq_of_dropWhile_ne_eq_cons rest
        have hasModifier : (directiveOf '#' written value position).modifier =
            some (String.ofList modifier) := by
          show (splitModifier written).2 = _
          rw [splitModifier, rest]
        have isModified := Directive.IsWrittenAs.modified hasModifier
        rw [rest, isColon] at parts
        rwa [isName, String.toList_ofList, parts] at isModified

namespace Cursor

variable {cursor : Cursor}

/-- Whoever reads past a character reads no other such character before it. -/
theorem exists_passes_skipPast (cursor : Cursor) (character : Char) : ∃ text,
    Passes text cursor (cursor.skipPast character) ∧ character ∉ text.dropLast := by
  obtain ⟨text, passes⟩ := leadsTo_seek cursor fun place => place.isOn (· == character)
  have others : ∀ other ∈ text, (other != character) = true :=
    passes.belongs_of_seek fun ahead => by rw [isOn_of_ahead_cons ahead, bne, Bool.not_not]
  have notBefore : character ∉ text := fun member => by simpa using others character member
  cases ahead : (cursor.seek fun place => place.isOn (· == character)).ahead with
  | nil =>
      refine ⟨text, ?_, fun member => notBefore (List.dropLast_subset text member)⟩
      rw [skipPast, advance_of_ahead_nil ahead]
      exact passes
  | cons found rest =>
      refine ⟨text ++ [found], passes.trans (.one ahead), ?_⟩
      rwa [List.dropLast_concat]

/-- A name is written up to a place where no name goes on. -/
theorem exists_passes_name (cursor : Cursor) : ∃ name,
    Passes name cursor (cursor.skipWhile isNameCharacter) ∧
      (cursor.skipWhile isNameCharacter).textSince cursor.offset = name ∧
      (∀ character ∈ name, isNameCharacter character) ∧
      EndsName (cursor.skipWhile isNameCharacter).ahead := by
  obtain ⟨name, passes⟩ := leadsTo_seek cursor fun place => !place.isOn isNameCharacter
  refine ⟨name, passes, passes.textSince_eq, passes.belongs_of_skipWhile, ?_⟩
  rcases ahead_seek_eq_nil_or_halts cursor fun place => !place.isOn isNameCharacter with
    atEnd | halted
  · have atEnd : (cursor.skipWhile isNameCharacter).ahead = [] := atEnd
    rw [EndsName, atEnd]
    rfl
  · exact Bool.not_eq_true' _ |>.mp halted

theorem passes_openingAngle (isAhead : cursor.isOpeningTagAhead) :
    Passes ['<'] cursor (cursor.skip ['<']) := by
  obtain ⟨first, rest, ahead, -⟩ := exists_ahead_of_isOpeningTagAhead isAhead
  exact passes_skip (by simp [startsWith, ahead])

/-- An opening tag starts with its name. -/
theorem exists_passes_nameOfTag (isAhead : cursor.isOpeningTagAhead) : ∃ named,
    Passes ('<' :: cursor.readOpeningTag.1.tag.name.toList) cursor named ∧ EndsName named.ahead ∧
      LeadsTo named cursor.readOpeningTag.2 := by
  obtain ⟨name, passes, isName, -, ends⟩ := exists_passes_name (cursor.skip ['<'])
  have written : cursor.readOpeningTag.1.tag.name.toList = name := by
    rw [← isName]
    exact String.toList_ofList
  rw [written]
  exact ⟨_, (passes_openingAngle isAhead).trans passes, ends,
    (leadsTo_readAttributes _).trans (leadsTo_skipTagEnd _)⟩

theorem startsWithName_of_openingTag (isAhead : cursor.isOpeningTagAhead) :
    StartsWithName ('<' :: cursor.readOpeningTag.1.tag.name.toList) cursor.ahead := by
  obtain ⟨named, passes, ends, -⟩ := exists_passes_nameOfTag isAhead
  exact ⟨_, passes.ahead_eq, ends⟩

theorem exists_passes_openingTag (isAhead : cursor.isOpeningTagAhead) : ∃ text,
    Passes text cursor cursor.readOpeningTag.2 ∧
      StartsWithName ('<' :: cursor.readOpeningTag.1.tag.name.toList) text := by
  obtain ⟨named, passes, ends, rest, later⟩ := exists_passes_nameOfTag isAhead
  rw [later.ahead_eq] at ends
  exact ⟨_, passes.trans later, rest, rfl, ends.of_append⟩

/-- A closing tag starts with its name, and no `>` stands before its end. -/
theorem exists_passes_closingTag (isAhead : cursor.isClosingTagAhead) : ∃ text,
    Passes text cursor cursor.readClosingTag.2 ∧
      StartsWithName (closingTagOpener ++ cursor.readClosingTag.1.name.toList) text ∧
      (∀ character ∈ cursor.readClosingTag.1.name.toList, isNameCharacter character) ∧
      '>' ∉ text.dropLast := by
  obtain ⟨name, passes, isName, legal, ends⟩ := exists_passes_name (cursor.skip closingTagOpener)
  obtain ⟨junk, toEnd, notBefore⟩ :=
    exists_passes_skipPast ((cursor.skip closingTagOpener).skipWhile isNameCharacter) '>'
  have written : cursor.readClosingTag.1.name.toList = name := by
    rw [← isName]
    exact String.toList_ofList
  have notInName : '>' ∉ closingTagOpener ++ name := by
    rw [List.mem_append, not_or]
    exact ⟨by decide, fun member => absurd (legal _ member) (by decide)⟩
  rw [written]
  refine ⟨_, ((passes_skip isAhead).trans passes).trans toEnd, ⟨junk, rfl, ?_⟩, legal, ?_⟩
  · rw [toEnd.ahead_eq] at ends
    exact ends.of_append
  · cases junk with
    | nil =>
        rw [List.append_nil]
        exact fun member => notInName (List.dropLast_subset _ member)
    | cons first rest =>
        rw [List.dropLast_append_of_ne_nil (List.cons_ne_nil _ _), List.mem_append, not_or]
        exact ⟨notInName, notBefore⟩

/-- An attribute starts with its name. -/
theorem exists_isWrittenAs_readAttribute (cursor : Cursor) : ∃ written,
    cursor.readAttribute.1.IsWrittenAs written ∧ StartsWithName written cursor.ahead := by
  unfold readAttribute
  cases isSigil : cursor.sigil? with
  | none =>
      obtain ⟨name, passes, isName, -, ends⟩ := exists_passes_name cursor
      refine ⟨name, ?_, _, passes.ahead_eq, ends⟩
      dsimp only
      rw [isName]
      exact String.toList_ofList.symm
  | some sigil =>
      obtain ⟨name, passes, isName, -, ends⟩ := exists_passes_name cursor.advance
      obtain ⟨isCurrent, isMark⟩ := Option.filter_eq_some_iff.mp isSigil
      obtain ⟨rest, ahead⟩ := List.head?_eq_some_iff.mp isCurrent
      have isMark : sigil = ':' ∨ sigil = '#' := by simpa using isMark
      refine ⟨sigil :: name, ?_, _, (Passes.next ahead passes).ahead_eq, ends⟩
      dsimp only
      rw [isName]
      exact Attribute.isWrittenAs_directiveOf isMark name _ _

/-- Every attribute of a tag stands somewhere in it. -/
theorem exists_place_of_attribute (cursor : Cursor) :
    ∀ read ∈ cursor.readAttributes.1, ∃ place, LeadsTo cursor place ∧
      read.position = place.position ∧
      ∃ written, read.IsWrittenAs written ∧ StartsWithName written place.ahead := by
  fun_induction readAttributes cursor with
  | case1 cursor place isOn first later ih =>
      intro read member
      rcases List.mem_cons.mp member with rfl | isLater
      · exact ⟨place, leadsTo_seek cursor _, position_readAttribute place,
          exists_isWrittenAs_readAttribute place⟩
      · obtain ⟨there, leads, isThere⟩ := ih read isLater
        exact ⟨there, ((leadsTo_seek cursor _).trans (leadsTo_readAttribute place)).trans leads,
          isThere⟩
  | case2 cursor place notOn => exact fun _ member => absurd member List.not_mem_nil

end Cursor

end TemplateMarkup
