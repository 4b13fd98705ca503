import Mathlib.Data.List.Chain
import TemplateMarkup.Proofs.Assembly.OpenTags
import TemplateMarkup.Proofs.Text.Flattening

/-!
# White space of the texts in a template

The white space of a text is decided upon when the text is read: from what is in its element already,
and from what follows directly.  In the finished tree it is nothing but single spaces, and there is
none at the start of the first child of an element.  At the end of the last child and next to another
text that starts with white space there is none either, unless the text was followed by a tag that
left nothing in the tree.
-/

namespace TemplateMarkup

open CharacterClass

/-- The body of the element has been read as text.  The body of a root never is. -/
def Family.hasRawBody (family : Family) : Bool :=
  match family.lineage with
  | tag :: _ :: _ => tag.hasRawBody
  | _ => false

/-- No text is added to an element whose body has been read already. -/
theorem Turn.hasRawBody_lineage {source : String} {start : Position} {turn : Turn}
    (isTurn : turn ∈ Template.turns source start) (children : List NodeHead) :
    Family.hasRawBody ⟨turn.assembly.lineage, children⟩ = false := by
  unfold Family.hasRawBody
  dsimp only
  split
  · next lineage => exact hasRawBody_eq_false isTurn lineage
  · rfl

def startsWithSpace (text : String) : Bool := text.toList.head?.any isWhitespace

def endsWithSpace (text : String) : Bool := text.toList.getLast?.any isWhitespace

namespace Family

variable (isKept vanishes : Position → Prop)

/-- White space is not on both sides where a text meets the next child.  Nothing is said of texts that
are kept as they are, and of a text whose follower has vanished. -/
def Meet : NodeHead → NodeHead → Prop
  | .text content position, .text content' position' =>
      ¬ isKept position → ¬ isKept position' → ¬ vanishes position →
        ¬ (endsWithSpace content ∧ startsWithSpace content')
  | _, _ => True

/-- The white space of texts is normal.  Nothing is said of texts that are kept as they are, and of the
end of a text whose follower has vanished. -/
structure IsSpaceNormal (children : List NodeHead) : Prop where
  spaced : ∀ content position, .text content position ∈ children → ¬ isKept position →
    IsSpaced content.toList
  first : ∀ content position, children.head? = some (.text content position) → ¬ isKept position →
    startsWithSpace content = false
  last : ∀ content position, children.getLast? = some (.text content position) → ¬ isKept position →
    ¬ vanishes position → endsWithSpace content = false
  adjacent : children.IsChain (Meet isKept vanishes)

variable {isKept vanishes} {children : List NodeHead}

theorem IsSpaceNormal.nil : IsSpaceNormal isKept vanishes [] :=
  ⟨nofun, nofun, nofun, .nil⟩

theorem IsSpaceNormal.append_element (normal : IsSpaceNormal isKept vanishes children) (tag : Tag) :
    IsSpaceNormal isKept vanishes (children ++ [.element tag]) where
  spaced content position member := by
    refine normal.spaced content position ?_
    simpa using member
  first content position isFirst := by
    refine normal.first content position ?_
    cases children with
    | nil => cases isFirst
    | cons => exact isFirst
  last content position isLast := by
    rw [List.getLast?_concat] at isLast
    cases isLast
  adjacent := by
    refine normal.adjacent.append (.singleton _) fun child _ next isNext => ?_
    cases isNext
    cases child <;> trivial

/-- A text comes after the other children, and then perhaps an element. -/
theorem IsSpaceNormal.append_text (normal : IsSpaceNormal isKept vanishes children)
    {content : String} {position : Position} {after : List NodeHead}
    (afterwards : after = [] ∨ ∃ tag, after = [.element tag])
    (spaced : ¬ isKept position → IsSpaced content.toList)
    (first : children = [] → ¬ isKept position → startsWithSpace content = false)
    (last : after = [] → ¬ isKept position → ¬ vanishes position → endsWithSpace content = false) :
    IsSpaceNormal isKept vanishes (children ++ .text content position :: after) where
  spaced content' position' member := by
    rcases List.mem_append.mp member with isOld | isNew
    · exact normal.spaced content' position' isOld
    · obtain ⟨rfl, rfl⟩ : content' = content ∧ position' = position := by
        rcases afterwards with rfl | ⟨tag, rfl⟩ <;> simpa using isNew
      exact spaced
  first content' position' isFirst := by
    cases children with
    | nil =>
        cases isFirst
        exact first rfl
    | cons => exact normal.first content' position' isFirst
  last content' position' isLast := by
    rw [List.getLast?_append_of_ne_nil _ (List.cons_ne_nil _ _)] at isLast
    rcases afterwards with rfl | ⟨tag, rfl⟩
    · cases isLast
      exact last rfl
    · cases isLast
  adjacent := by
    refine normal.adjacent.append ?_ fun child isLast next isNext => ?_
    · rcases afterwards with rfl | ⟨tag, rfl⟩
      · exact .singleton _
      · exact .cons_cons trivial (.singleton _)
    · cases isNext
      cases child with
      | element tag => trivial
      | text content' position' =>
          intro notKept _ follows
          rw [normal.last content' position' isLast notKept follows]
          exact fun both => Bool.false_ne_true both.1

end Family

namespace Template

/-- The text at this position was read while an element was open that keeps white space. -/
def ReadsKept (source : String) (start position : Position) : Prop :=
  ∃ turn ∈ turns source start, turn.run.position = position ∧ turn.assembly.keepsWhitespace

/-- The text at this position was followed by an opening tag whose element is not in the tree: it is
collected or dropped, or a component of its own. -/
def PrecedesVanishing (source : String) (start position : Position) : Prop :=
  ∃ turn ∈ turns source start, turn.run.position = position ∧
    ∃ opening body, turn.opening? = some (opening, body) ∧ opening.staysInTree body = false

variable {source : String} {start : Position} {sourcePath : Option String} {template : Template}

/-- The position of a text tells which turn has read it. -/
theorem readsKept_iff {turn : Turn} (member : turn ∈ turns source start) :
    ReadsKept source start turn.run.position ↔ turn.assembly.keepsWhitespace := by
  refine ⟨fun ⟨other, isOther, same, keeps⟩ => ?_, fun keeps => ⟨turn, member, rfl, keeps⟩⟩
  rwa [← Turn.eq_of_position_eq isOther member same]

theorem precedesVanishing_iff {turn : Turn} (member : turn ∈ turns source start) :
    PrecedesVanishing source start turn.run.position ↔
      ∃ opening body, turn.opening? = some (opening, body) ∧ opening.staysInTree body = false := by
  refine ⟨fun ⟨other, isOther, same, follows⟩ => ?_, fun follows => ⟨turn, member, rfl, follows⟩⟩
  rwa [← Turn.eq_of_position_eq isOther member same]

/-- What a turn adds keeps the white space of an element normal. -/
theorem isSpaceNormal_append_added {turn : Turn} (member : turn ∈ turns source start)
    (normal : Family.IsSpaceNormal (ReadsKept source start) (PrecedesVanishing source start)
      turn.assembly.siblings) :
    Family.IsSpaceNormal (ReadsKept source start) (PrecedesVanishing source start)
      (turn.assembly.siblings ++ turn.added) := by
  obtain ⟨after, isAfter, cases⟩ := turn.added_cases
  obtain ⟨afterwards, remains⟩ : (after = [] ∨ ∃ tag, after = [.element tag]) ∧
      (after = [] → ¬ PrecedesVanishing source start turn.run.position → turn.opening?.isNone) := by
    rcases cases with ⟨noTag, rfl⟩ | ⟨opening, body, isTag, ⟨-, rfl⟩ | ⟨vanishes, rfl⟩⟩
    · exact ⟨.inl rfl, fun _ _ => by rw [noTag]; rfl⟩
    · exact ⟨.inr ⟨_, rfl⟩, nofun⟩
    · exact ⟨.inl rfl, fun _ remains => absurd
        ((precedesVanishing_iff member).mpr ⟨opening, body, isTag, vanishes⟩) remains⟩
  rw [isAfter, Turn.text]
  -- Nothing may remain of the run, and then the element of the tag comes directly after the others.
  split
  · rw [List.nil_append]
    rcases afterwards with rfl | ⟨tag, rfl⟩
    · rwa [List.append_nil]
    · exact normal.append_element tag
  · have changed (notKept : ¬ ReadsKept source start turn.run.position) : turn.keptText.toList =
        (WhitespacePolicy.between turn.assembly.siblings.isEmpty turn.opening?.isNone).apply
          turn.run.text.toList := by
      rw [Turn.keptText, if_neg (notKept ∘ (readsKept_iff member).mpr), String.toList_ofList]
    obtain ⟨spaced, first, last⟩ := WhitespacePolicy.apply_between
      turn.assembly.siblings.isEmpty turn.opening?.isNone turn.run.text.toList
    refine normal.append_text afterwards (fun notKept => ?_) (fun isFirst notKept => ?_)
      fun isLast notKept follows => ?_
    · rw [changed notKept]
      exact spaced
    · rw [startsWithSpace, changed notKept]
      exact first (List.isEmpty_iff.mpr isFirst)
    · rw [endsWithSpace, changed notKept]
      exact last (remains isLast follows)

/-- The white space of all texts is normal, apart from those in raw bodies and those read while an
element was open that keeps white space. -/
theorem isSpaceNormal_of_parse (isParsed : parse source start sourcePath = .ok template) :
    ∀ component ∈ template.components, ∀ family ∈ component.families,
      family.hasRawBody = false →
        Family.IsSpaceNormal (ReadsKept source start) (PrecedesVanishing source start)
          family.children := by
  suffices holds : ∀ family ∈ template.families, family.hasRawBody = false →
      Family.IsSpaceNormal (ReadsKept source start) (PrecedesVanishing source start)
        family.children from
    fun component isComponent family member =>
      holds family (mem_families.mpr ⟨component, isComponent, member⟩)
  refine of_mem_families isParsed (fun _ => .nil) (fun turn isTurn family isBegun notRaw => ?_)
    fun turn isTurn normal notRaw => isSpaceNormal_append_added isTurn (normal notRaw)
  obtain ⟨opening, body, isTag, ⟨-, rfl⟩ | ⟨-, rfl⟩⟩ := Turn.mem_begun isBegun
  · obtain ⟨parent, above, lineage⟩ := turn.assembly.exists_lineage_eq
    rw [Family.hasRawBody, lineage] at notRaw
    rw [Turn.body_eq_none isTag notRaw]
    exact .nil
  · exact .nil

/-- In a paragraph white space is flattened between words, and kept as one space before an element. -/
theorem isSpaceNormal_paragraph : ∃ template,
    parse "<p> a  b <i> c</i> </p>" .start none = .ok template ∧
      (template.families.flatMap (·.children)).filterMap NodeHead.text? =
        [("a b ", ⟨1, 4⟩), ("c", ⟨1, 13⟩)] ∧
      ∀ component ∈ template.components, ∀ family ∈ component.families,
        family.hasRawBody = false →
          Family.IsSpaceNormal (ReadsKept "<p> a  b <i> c</i> </p>" .start)
            (PrecedesVanishing "<p> a  b <i> c</i> </p>" .start) family.children := by
  have isParsed : (parse "<p> a  b <i> c</i> </p>" .start none).map
      (fun template => (template.families.flatMap (·.children)).filterMap NodeHead.text?) =
        .ok [("a b ", ⟨1, 4⟩), ("c", ⟨1, 13⟩)] := by decide +kernel
  obtain ⟨template, isTemplate, texts⟩ := exists_ok_of_map isParsed
  exact ⟨template, isTemplate, texts, isSpaceNormal_of_parse isTemplate⟩

/-- A space stays at the end of an element if a script that follows it is collected. -/
theorem not_isSpaceNormal_before_script :
    ¬ ∀ (source : String) (start : Position) (sourcePath : Option String) (template : Template),
      parse source start sourcePath = .ok template →
        ∀ component ∈ template.components, ∀ family ∈ component.families,
          family.hasRawBody = false →
            Family.IsSpaceNormal (ReadsKept source start) (fun _ => False) family.children := by
  intro normal
  have isParsed : (parse "<p>a <script>x</script></p>" .start none).map families =
      .ok [⟨[.bare "" .start], [.element (.bare "p" .start)]⟩,
        ⟨[.bare "p" .start, .bare "" .start], [.text "a " ⟨1, 4⟩]⟩] := by decide +kernel
  obtain ⟨template, isTemplate, areFamilies⟩ := exists_ok_of_map isParsed
  have member : ⟨[.bare "p" .start, .bare "" .start], [.text "a " ⟨1, 4⟩]⟩ ∈ template.families := by
    rw [areFamilies]
    exact .tail _ List.mem_cons_self
  obtain ⟨component, isComponent, member⟩ := mem_families.mp member
  have paragraph := normal _ _ _ template isTemplate component isComponent _ member rfl
  have notKept : ¬ ReadsKept "<p>a <script>x</script></p>" .start ⟨1, 4⟩ := by
    have flat : ∀ turn ∈ turns "<p>a <script>x</script></p>" .start,
        turn.assembly.keepsWhitespace = false := by decide +kernel
    rintro ⟨turn, isTurn, -, keeps⟩
    rw [flat turn isTurn] at keeps
    cases keeps
  have ends := paragraph.last "a " ⟨1, 4⟩ rfl notKept id
  exact absurd ends (by decide)

end Template

end TemplateMarkup
