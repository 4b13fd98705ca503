import TemplateMarkup.Proofs.Document.TextSpacing

/-!
# What remains in the trees

Links, scripts, style sheets and the definitions of components are collected, or they remain in the
tree.  The tag of an element and its text tell which of the two happens.  Everything else remains, so
the elements below the roots are those of the tags that are not collected, each of them once.
-/

namespace TemplateMarkup

open CharacterClass Destination

/-- An element with this tag and these children is none of those that are collected. -/
@[mk_iff]
structure Tag.RemainsWith (tag : Tag) (children : List NodeHead) : Prop where
  template : tag.name = "template" → tag.argument? "component" = none
  link : tag.name = "link" →
    ¬ (tag.value? "rel" = some "import" ∧ (tag.nonemptyValue? "href").isSome) ∧
      ¬ (tag.value? "rel" = some "stylesheet" ∧ (tag.nonemptyValue? "href").any isRelativePath)
  style : tag.name = "style" → tag.hasDirective "raw"
  script : tag.name = "script" →
    tag.hasDirective "raw" ∨ (tag.nonemptyValue? "src").any (!isRelativePath ·) ∨
      tag.hasDirective "render" ∧
        ((tag.nonemptyValue? "src").isSome ∨ ∃ child ∈ children, child.text?.isSome)

instance (tag : Tag) (children : List NodeHead) : Decidable (tag.RemainsWith children) :=
  decidable_of_iff' _ (tag.remainsWith_iff children)

theorem Tag.RemainsWith.append {tag : Tag} {children : List NodeHead}
    (remains : tag.RemainsWith children) (more : List NodeHead) :
    tag.RemainsWith (children ++ more) where
  template := remains.template
  link := remains.link
  style := remains.style
  script isScript := by
    refine (remains.script isScript).imp_right (Or.imp_right fun renders => ?_)
    refine ⟨renders.1, renders.2.imp_right fun ⟨child, member, isText⟩ => ?_⟩
    exact ⟨child, List.mem_append_left _ member, isText⟩

/-- There is at most one child, which is a text with no white space at its ends. -/
def IsTrimmedText (children : List NodeHead) : Prop :=
  children = [] ∨ ∃ content position, children = [.text content position] ∧
    content ≠ "" ∧ startsWithSpace content = false ∧ endsWithSpace content = false

namespace RawBody

theorem isTrimmedText_children (body : Option RawBody) :
    IsTrimmedText ((children body).map Node.head) := by
  unfold children
  split
  · exact .inl rfl
  · next read =>
      split
      · exact .inl rfl
      · next notEmpty =>
          refine .inr ⟨_, _, rfl, fun isEmpty => notEmpty (by rw [isEmpty]; rfl), ?_, ?_⟩
          · rw [startsWithSpace, trimmed, String.toList_ofList, WhitespacePolicy.apply_rawBody]
            exact any_head?_trimEnds isWhitespace _
          · rw [endsWithSpace, trimmed, String.toList_ofList, WhitespacePolicy.apply_rawBody]
            exact any_getLast?_trimEnds isWhitespace _

/-- An element has a text child if its trimmed body is not empty. -/
theorem exists_text_children_iff (body : Option RawBody) :
    (∃ child ∈ (children body).map Node.head, child.text?.isSome) ↔
      ((body.map (·.trimmed)).getD "").isEmpty = false := by
  unfold children
  cases body with
  | none => simp
  | some read =>
      rw [Option.map_some, Option.getD_some]
      cases isEmpty : read.trimmed.isEmpty with
      | true => simp [isEmpty]
      | false => simp [isEmpty, Node.head, NodeHead.text?]

end RawBody

namespace Destination

theorem ofLink_eq_tree_iff (tag : Tag) : ofLink tag = .tree ↔
    ¬ (tag.value? "rel" = some "import" ∧ (tag.nonemptyValue? "href").isSome) ∧
      ¬ (tag.value? "rel" = some "stylesheet" ∧ (tag.nonemptyValue? "href").any isRelativePath) := by
  unfold ofLink
  cases tag.nonemptyValue? "href" with
  | none => simp
  | some href =>
      by_cases isImport : tag.value? "rel" = some "import"
      · simp [isImport]
      · by_cases isCollected : tag.value? "rel" = some "stylesheet" ∧ isRelativePath href
        · simp [isCollected]
        · simp [isImport, isCollected]

theorem ofScript_eq_tree_iff (tag : Tag) (body : Option RawBody) : ofScript tag body = .tree ↔
    (tag.nonemptyValue? "src").any (!isRelativePath ·) ∨ tag.hasDirective "render" ∧
      ((tag.nonemptyValue? "src").isSome ∨
        ∃ child ∈ (RawBody.children body).map Node.head, child.text?.isSome) := by
  rw [RawBody.exists_text_children_iff]
  unfold ofScript
  dsimp only
  split
  · next isForeign => simp [isForeign]
  · next notForeign =>
      split
      · next isRendered =>
          have isRendered := (Bool.and_eq_true _ _).mp isRendered
          simpa [notForeign, isRendered.1] using isRendered.2
      · next notRendered =>
          refine iff_of_false ?_ ?_
          · split
            · nofun
            · split
              · nofun
              · split <;> nofun
              · nofun
          · rintro (isForeign | isRendered)
            · exact notForeign isForeign
            · exact notRendered (by simpa using isRendered)

theorem ofStyle_ne_tree (tag : Tag) (body : Option RawBody) : ofStyle tag body ≠ .tree := by
  unfold ofStyle
  split
  · nofun
  · split <;> nofun

end Destination

/-- The element of a tag stays in the tree if it is none of those that are collected. -/
theorem OpeningTag.staysInTree_iff (opening : OpeningTag) (body : Option RawBody) :
    opening.staysInTree body ↔
      opening.tag.RemainsWith ((RawBody.children body).map Node.head) := by
  rw [Tag.remainsWith_iff]
  unfold staysInTree ofElement Tag.componentName? TagName.hasForeignBody
  by_cases isLink : opening.tag.name = "link"
  · simp [isLink, ofLink_eq_tree_iff]
  · by_cases isScript : opening.tag.name = "script"
    · cases opening.tag.hasDirective "raw" with
      | true => simp [isScript]
      | false => simp [isScript, ofScript_eq_tree_iff]
    · by_cases isStyle : opening.tag.name = "style"
      · cases opening.tag.hasDirective "raw" with
        | true => simp [isStyle]
        | false => simp [isStyle, ofStyle_ne_tree]
      · by_cases isTemplate : opening.tag.name = "template"
        · simp [isTemplate]
        · simp [isLink, isScript, isStyle, isTemplate]

/-- The tag of the element, unless that is a root. -/
def Family.inner? (family : Family) : Option Tag :=
  match family.lineage with
  | tag :: _ :: _ => some tag
  | _ => none

/-- The opening tag of a turn, unless it is collected. -/
def Turn.remaining? (turn : Turn) : Option Tag :=
  turn.opening?.bind fun start =>
    if start.1.tag.RemainsWith ((RawBody.children start.2).map Node.head) then some start.1.tag
    else none

theorem Turn.filterMap_begun_inner? (turn : Turn) :
    turn.begun.filterMap Family.inner? = turn.remaining?.toList := by
  unfold begun remaining?
  cases turn.opening? with
  | none => rfl
  | some start =>
      obtain ⟨opening, body⟩ := start
      obtain ⟨parent, above, lineage⟩ := turn.assembly.exists_lineage_eq
      rw [Option.map_some, Option.getD_some, Option.bind_some, OpeningTag.begun, lineage]
      by_cases stays : opening.staysInTree body
      · rw [if_pos stays, if_pos ((opening.staysInTree_iff body).mp stays)]
        rfl
      · rw [if_neg stays, if_neg (stays ∘ (opening.staysInTree_iff body).mpr)]
        split <;> rfl

namespace Template

variable {source : String} {start : Position} {sourcePath : Option String} {template : Template}

/-- Below the roots only elements remain that are not collected. -/
theorem remainsWith_of_mem_families (isParsed : parse source start sourcePath = .ok template) :
    ∀ family ∈ template.families, ∀ tag parent above, family.lineage = tag :: parent :: above →
      tag.RemainsWith family.children ∧ (tag.hasRawBody → IsTrimmedText family.children) := by
  refine of_mem_families isParsed (by simp) (fun turn isTurn family isBegun => ?_)
    fun turn isTurn holds tag parent above lineage => ?_
  · obtain ⟨opening, body, -, ⟨stays, rfl⟩ | ⟨-, rfl⟩⟩ := Turn.mem_begun isBegun
    · intro tag parent above lineage
      obtain ⟨rfl, -⟩ := List.cons.inj lineage
      exact ⟨(opening.staysInTree_iff body).mp stays, fun _ => RawBody.isTrimmedText_children body⟩
    · simp
  · -- An element that still grows is open, and no open element has a raw body.
    refine ⟨(holds tag parent above lineage).1.append _, fun isRaw => ?_⟩
    rw [Turn.hasRawBody_eq_false isTurn lineage] at isRaw
    cases isRaw

/-- The root of a component declares its name. -/
theorem componentName?_root (isParsed : parse source start sourcePath = .ok template)
    {name : String} {component : Component}
    (member : (name, component) ∈ template.inlineComponents.entries) :
    component.root.tag.componentName? = some name := by
  obtain ⟨last, isLast, -, rfl⟩ := exists_last_turn isParsed
  obtain ⟨arena, represents⟩ := exists_represents_turn isLast
  have records := (Turn.represents_withText represents).records.closeScopes
    last.withText.inline.length
  obtain ⟨tag, declares, told⟩ := records.closed (NameMap.mem_filterEntries_id.mp member)
  cases (List.cons.inj told).1
  exact declares

/-- What is collected has left the trees of a template, and only that. -/
structure HasRemaining (source : String) (start : Position) (template : Template) : Prop where
  /-- No element below a root is one of those that are collected.  An element whose body is read as
  text has its trimmed text and nothing else. -/
  elements : ∀ component ∈ template.components, ∀ tag parent above children,
    ⟨tag :: parent :: above, children⟩ ∈ component.families →
      tag.RemainsWith children ∧ (tag.hasRawBody → IsTrimmedText children)
  /-- The other opening tags of the source have their elements in the trees, each of them once. -/
  inner : (template.families.filterMap Family.inner?).Perm
    ((turns source start).filterMap Turn.remaining?)
  roots : ∀ name component, (name, component) ∈ template.inlineComponents.entries →
    component.root.tag.name = "template" ∧ component.root.tag.argument? "component" = some name

/-- The elements below the roots are those whose tags are not collected, and the root of a component is
the `template` element that declares its name. -/
theorem hasRemaining_of_parse (isParsed : parse source start sourcePath = .ok template) :
    template.HasRemaining source start where
  elements component isComponent tag parent above children member :=
    remainsWith_of_mem_families isParsed _ (mem_families.mpr ⟨component, isComponent, member⟩)
      tag parent above rfl
  inner := perm_filterMap_families isParsed rfl (fun _ _ => rfl) Turn.filterMap_begun_inner?
  roots name component member := by
    have declares := componentName?_root isParsed member
    have named := FlatAssembly.name_of_componentName?_eq_some declares
    rw [Tag.componentName?, named] at declares
    exact ⟨named, declares⟩

/-- A component with a script that is rendered, a link to a style sheet and a raw style sheet. -/
def cardSource : String :=
  "<template #component=\"card\"><script #render> go() </script></template>" ++
    "<link rel=\"stylesheet\" href=\"./a.css\"><style #raw> b </style>"

/-- The script and the style sheet remain, and the link does not. -/
theorem hasRemaining_card : ∃ template, parse cardSource .start none = .ok template ∧
    (template.families.filterMap Family.inner?).map (·.name) = ["style", "script"] ∧
    template.HasRemaining cardSource .start := by
  have isParsed : (parse cardSource .start none).map
      (fun template => (template.families.filterMap Family.inner?).map (·.name)) =
        .ok ["style", "script"] := by decide +kernel
  obtain ⟨template, isTemplate, names⟩ := exists_ok_of_map isParsed
  exact ⟨template, isTemplate, names, hasRemaining_of_parse isTemplate⟩

end Template

end TemplateMarkup
