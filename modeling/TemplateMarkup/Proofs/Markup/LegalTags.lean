import TemplateMarkup.Proofs.Markup.WholeTags
import TemplateMarkup.Proofs.Markup.WrittenTags

/-!
# Tags that can be read

The names in a tag are made of name characters only.  A tag's name starts as tag names do, a plain
attribute has a name that starts with neither sigil, and what is noted of a directive's expression is
what its value says.
-/

namespace TemplateMarkup

open CharacterClass

/-- The name of a plain attribute could be read as such. -/
structure StaticAttribute.IsLegal (written : StaticAttribute) : Prop where
  nonempty : written.name ≠ ""
  name : ∀ character ∈ written.name.toList, isNameCharacter character
  noSigil : ∀ first ∈ written.name.toList.head?, first ≠ ':' ∧ first ≠ '#'

/-- What is noted of a directive's expression is what its value says, and nothing if it has none. -/
structure Directive.IsClassified (directive : Directive) : Prop where
  value : ∀ text, directive.value = some text →
    (⟨directive.isAsync, directive.referencesProps⟩ : ExpressionFlags) =
      Expression.classify text.toList
  noValue : directive.value = none →
    directive.isAsync = false ∧ directive.referencesProps = false

/-- A tag could be read. -/
structure Tag.IsLegal (tag : Tag) : Prop where
  starts : tag.name.toList.head?.any startsTagName
  name : ∀ character ∈ tag.name.toList, isNameCharacter character
  attributes : ∀ written ∈ tag.attributes, written.IsLegal
  directives : ∀ directive ∈ tag.directives, directive.IsClassified

namespace Attribute

/-- A plain attribute has a legal name, and a directive has the flags of its value. -/
def IsLegal : Attribute → Prop
  | .plain written => written.IsLegal
  | .directive written => written.IsClassified

theorem isClassified_directiveOf (sigil : Char) (written : List Char) (value : Option (List Char))
    (position : Position) : (directiveOf sigil written value position).IsClassified := by
  cases value with
  | none => exact ⟨nofun, fun _ => ⟨rfl, rfl⟩⟩
  | some text =>
      refine ⟨fun text' isText => ?_, nofun⟩
      cases isText
      rw [String.toList_ofList]
      rfl

end Attribute

namespace Cursor

variable {cursor : Cursor}

theorem isLegal_readAttribute (isOn : cursor.isOn isNameCharacter) :
    cursor.readAttribute.1.IsLegal := by
  unfold readAttribute
  cases isSigil : cursor.sigil? with
  | some sigil => exact Attribute.isClassified_directiveOf _ _ _ _
  | none =>
      obtain ⟨name, passes, isName, legal, ends⟩ := exists_passes_name cursor
      have written : (String.ofList ((cursor.skipWhile isNameCharacter).textSince
          cursor.offset)).toList = name := by
        rw [isName]
        exact String.toList_ofList
      obtain ⟨first, rest, ahead⟩ : ∃ first rest, cursor.ahead = first :: rest :=
        List.exists_cons_of_ne_nil (ahead_ne_nil_of_isOn isOn)
      obtain ⟨later, isWhole⟩ : ∃ later, name = first :: later := by
        have isThere := ahead.symm.trans passes.ahead_eq
        cases name with
        | nil =>
            -- A name goes on here, so a name that ends here is not empty.
            have isEnd : EndsName (first :: rest) := isThere ▸ ends
            rw [isOn_of_ahead_cons ahead] at isOn
            exact absurd isOn (by simpa [EndsName] using isEnd)
        | cons character later =>
            cases (List.cons.inj isThere).1
            exact ⟨later, rfl⟩
      have noSigil : first ≠ ':' ∧ first ≠ '#' := by
        simpa [sigil?, current?, ahead] using isSigil
      constructor
      · intro isEmpty
        have isNil := written.symm.trans (congrArg String.toList isEmpty)
        rw [isWhole] at isNil
        cases isNil
      · rwa [written]
      · rw [written, isWhole]
        intro character isFirst
        cases isFirst
        exact noSigil

theorem isLegal_readAttributes (cursor : Cursor) :
    ∀ read ∈ cursor.readAttributes.1, read.IsLegal := by
  fun_induction readAttributes cursor with
  | case1 cursor place isOn first later ih =>
      exact List.forall_mem_cons.mpr ⟨isLegal_readAttribute isOn, ih⟩
  | case2 cursor place notOn => exact fun _ member => absurd member List.not_mem_nil

theorem isLegal_readOpeningTag (isAhead : cursor.isOpeningTagAhead) :
    cursor.readOpeningTag.1.tag.IsLegal where
  starts := by
    obtain ⟨first, rest, ahead, starts⟩ := exists_ahead_of_isOpeningTagAhead isAhead
    obtain ⟨after, isThere, -⟩ := startsWithName_of_openingTag isAhead
    have nonempty := name_readOpeningTag_ne isAhead
    rw [ahead] at isThere
    cases name : cursor.readOpeningTag.1.tag.name.toList with
    | nil => exact absurd (String.toList_eq_nil_iff.mp name) nonempty
    | cons character later =>
        rw [name] at isThere
        cases isThere
        exact starts
  name := isNameCharacter_of_readOpeningTag cursor
  attributes written member := by
    obtain ⟨_ | _, isRead, same⟩ := List.mem_filterMap.mp member <;> cases same
    exact isLegal_readAttributes _ _ isRead
  directives written member := by
    obtain ⟨_ | _, isRead, same⟩ := List.mem_filterMap.mp member <;> cases same
    exact isLegal_readAttributes _ _ isRead

end Cursor

end TemplateMarkup
