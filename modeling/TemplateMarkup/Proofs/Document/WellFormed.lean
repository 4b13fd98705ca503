import TemplateMarkup.Proofs.Assembly.Contents
import TemplateMarkup.Proofs.Document.Bodies
import TemplateMarkup.Proofs.Document.Provenance
import TemplateMarkup.Proofs.Document.SlotSummary
import TemplateMarkup.Proofs.Markup.LegalTags

/-!
# Well-formed templates

What can be relied on in every template that comes out.  All tags are such as can be read, an element
that is void has no children, and nothing is empty that stands for something: no text, no name, no
path and no bucket.
-/

namespace TemplateMarkup

/-- A void element is never opened. -/
theorem FlatAssembly.isVoid_of_mem_openNames {flat next : FlatAssembly} {token : Token}
    (step : flat.step token = .ok next)
    (notVoid : ∀ name ∈ flat.openNames, TagName.isVoid name = false) :
    ∀ name ∈ next.openNames, TagName.isVoid name = false := by
  intro name isOpen
  rcases mem_openNames_step step isOpen with wasOpen | ⟨opening, body, -, notVoid, rfl⟩
  · exact notVoid name wasOpen
  · exact notVoid

theorem Assembly.isVoid_of_mem_openNames {assembly next : Assembly} {token : Token}
    (step : assembly.step token = .ok next)
    (notVoid : ∀ name ∈ assembly.openNames, TagName.isVoid name = false) :
    ∀ name ∈ next.openNames, TagName.isVoid name = false := by
  have flatStep : assembly.flatten.step token = .ok next.flatten := by
    rw [step_flatten, step]
    rfl
  rw [← openNames_flatten] at notVoid ⊢
  exact FlatAssembly.isVoid_of_mem_openNames flatStep notVoid

theorem OpenElement.exists_heads_eq (nested : List OpenElement) (root : OpenElement) :
    ∃ below, heads (nested ++ [root]) = .element root.tag :: below := by
  induction nested with
  | nil => exact ⟨_, rfl⟩
  | cons element outer ih =>
      obtain ⟨below, isHeads⟩ := ih
      rw [List.cons_append, heads, isHeads]
      exact ⟨_, rfl⟩

theorem Scope.exists_heads_eq (scope : Scope) :
    ∃ below, scope.heads = .element scope.root.tag :: below :=
  OpenElement.exists_heads_eq scope.nested scope.root

namespace Turn

variable {source : String} {start : Position} {turn : Turn}

theorem isVoid_of_mem_openNames : ∀ turn ∈ Template.turns source start,
    ∀ name ∈ turn.assembly.openNames, TagName.isVoid name = false := by
  refine of_mem_onwards (fun _ isOpen => absurd isOpen List.not_mem_nil) ?_
  intro turn _ next notVoid follows
  have afterText : turn.assembly.step (.text turn.run) = .ok turn.withText := rfl
  have notVoid := Assembly.isVoid_of_mem_openNames afterText notVoid
  rcases next?_cases follows with ⟨opening, body, -, opens, -⟩ | ⟨closing, -, closes, -⟩
  · have step : turn.withText.step (.opening opening body) = .ok next.assembly := opens
    exact Assembly.isVoid_of_mem_openNames step notVoid
  · have step : turn.withText.step (.closing closing) = .ok next.assembly := closes
    exact Assembly.isVoid_of_mem_openNames step notVoid

/-- The root of the innermost component is the main one or a `template` element. -/
theorem name_root_current (isTurn : turn ∈ Template.turns source start) :
    turn.assembly.current.root.tag.name = "" ∨
      turn.assembly.current.root.tag.name = "template" := by
  obtain ⟨arena, represents⟩ := Template.exists_represents_turn isTurn
  have records := represents.records
  obtain ⟨below, heads⟩ := turn.assembly.current.exists_heads_eq
  generalize turn.assembly = assembly at records heads
  rcases assembly with ⟨main, inline, components, buckets, imports⟩
  cases inline with
  | nil =>
      obtain ⟨tag, isRoot, told⟩ := records.main
      cases (List.cons.inj (heads.symm.trans told)).1
      exact .inl (congrArg Tag.name isRoot)
  | cons opened outer =>
      obtain ⟨tag, isRoot, told⟩ := records.inline opened List.mem_cons_self
      cases (List.cons.inj (heads.symm.trans told)).1
      exact .inr (FlatAssembly.name_of_componentName?_eq_some isRoot)

/-- The innermost open element is not void. -/
theorem isVoid_lineage (isTurn : turn ∈ Template.turns source start) :
    ∀ tag ∈ turn.assembly.lineage.head?, tag.isVoid = false := by
  intro tag isInnermost
  have names : ∀ name ∈ turn.assembly.current.nested.map (·.tag.name),
      TagName.isVoid name = false := by
    intro name isNested
    refine isVoid_of_mem_openNames turn isTurn name ?_
    unfold Assembly.openNames
    unfold Assembly.current at isNested
    split at isNested
    · next noneOpen =>
        rw [noneOpen]
        exact isNested
    · next isOpen =>
        rw [isOpen, List.flatMap_cons, List.append_assoc, List.append_assoc]
        exact List.mem_append_left _ isNested
  rw [Assembly.lineage_eq] at isInnermost
  cases nested : turn.assembly.current.nested with
  | nil =>
      rw [nested] at isInnermost
      cases isInnermost
      rw [Tag.isVoid]
      rcases name_root_current isTurn with isMain | isTemplate
      · rw [isMain]
        decide
      · rw [isTemplate]
        decide
  | cons element outer =>
      rw [nested] at isInnermost names
      cases isInnermost
      exact names _ List.mem_cons_self

end Turn

/-- The element has no children if it is void. -/
def Family.RespectsVoid (family : Family) : Prop :=
  ∀ tag ∈ family.lineage.head?, tag.isVoid → family.children = []

/-- A text is not empty, and the tag of an element is legal. -/
def NodeHead.IsLegal : NodeHead → Prop
  | .text content _ => content ≠ ""
  | .element tag => tag.IsLegal

theorem RawBody.isLegal_of_mem_children {body : Option RawBody} :
    ∀ node ∈ (children body).map Node.head, node.IsLegal := by
  unfold children
  split
  · exact nofun
  · split
    · exact nofun
    · next notEmpty =>
        refine List.forall_mem_singleton.mpr fun isEmpty => notEmpty ?_
        rw [isEmpty]
        rfl

namespace Turn

variable {turn : Turn}

theorem isLegal_tag {opening : OpeningTag} {body : Option RawBody}
    (isTag : turn.opening? = some (opening, body)) : opening.tag.IsLegal := by
  obtain ⟨isAhead, rfl⟩ := readOpeningTag_of_opening? isTag
  exact Cursor.isLegal_readOpeningTag isAhead

theorem isLegal_of_mem_nodesRead : ∀ node ∈ turn.nodesRead, node.IsLegal := by
  intro node member
  rcases List.mem_append.mp member with isText | isElement
  · unfold text at isText
    split at isText
    · cases isText
    · next notEmpty =>
        cases List.mem_singleton.mp isText
        intro isEmpty
        rw [isEmpty] at notEmpty
        exact notEmpty rfl
  · cases isTag : turn.opening? with
    | none =>
        rw [isTag] at isElement
        cases isElement
    | some start =>
        have isOwn : (NodeHead.element start.1.tag).IsLegal := isLegal_tag isTag
        rw [isTag, Option.map_some, Option.getD_some, OpeningTag.nodesRead] at isElement
        split at isElement
        · rcases List.mem_cons.mp isElement with rfl | isInside
          · exact isOwn
          · exact RawBody.isLegal_of_mem_children node isInside
        · split at isElement
          · exact List.mem_singleton.mp isElement ▸ isOwn
          · cases isElement

end Turn

/-- A component is well formed, apart from its root. -/
structure Component.IsWellFormed (component : Component) : Prop where
  nodes : ∀ node ∈ component.nodes, node.IsLegal
  voidElements : ∀ family ∈ component.families, family.RespectsVoid
  namedSlots : ∀ name ∈ component.namedSlots.names, name ≠ ""
  propTypes : component.propTypes ≠ some ""

/-- A bucket holds something, and there is something in whatever it holds. -/
structure Bucket.IsWellFormed (bucket : Bucket) : Prop where
  nonempty : bucket.scripts ≠ [] ∨ bucket.styles ≠ []
  scripts : ∀ script ∈ bucket.scripts, script.source.text ≠ "" ∧ script.scope ≠ ""
  styles : ∀ style ∈ bucket.styles, style.source.text ≠ ""

theorem Bucket.isWellFormed_ofAssets {assets : List Asset} (nonempty : assets ≠ [])
    (filled : ∀ asset ∈ assets, asset.IsFilled) : (ofAssets assets).IsWellFormed where
  nonempty := by
    obtain ⟨asset, rest, rfl⟩ := List.exists_cons_of_ne_nil nonempty
    cases asset with
    | script added => exact .inl (List.cons_ne_nil _ _)
    | style added => exact .inr (List.cons_ne_nil _ _)
  scripts script isScript := by
    obtain ⟨asset | asset, isAsset, same⟩ := List.mem_filterMap.mp isScript <;> cases same
    exact filled _ isAsset
  styles style isStyle := by
    obtain ⟨asset | asset, isAsset, same⟩ := List.mem_filterMap.mp isStyle <;> cases same
    exact filled _ isAsset

namespace Template

variable {source : String} {start : Position} {sourcePath : Option String} {template : Template}

theorem respectsVoid_of_mem_families (isParsed : parse source start sourcePath = .ok template) :
    ∀ family ∈ template.families, family.RespectsVoid := by
  refine of_mem_families isParsed (fun _ _ _ => rfl) (fun turn _ family isBegun => ?_)
    fun turn isTurn _ tag isInnermost isVoid => ?_
  · obtain ⟨opening, body, isTag, ⟨-, rfl⟩ | ⟨-, rfl⟩⟩ := Turn.mem_begun isBegun
    · intro tag isOwn isVoid
      cases isOwn
      have hasBody := Turn.isSome_body isTag
      rw [opening.isSome_rawKind?, isVoid, Bool.not_true, Bool.and_false, Bool.false_and,
        Bool.false_and, Option.isSome_eq_false_iff, Option.isNone_iff_eq_none] at hasBody
      rw [hasBody]
      rfl
    · exact fun _ _ _ => rfl
  · rw [Turn.isVoid_lineage isTurn tag isInnermost] at isVoid
    cases isVoid

/-- Everything in a template is well formed. -/
structure IsWellFormed (template : Template) : Prop where
  components : ∀ component ∈ template.components, component.IsWellFormed
  /-- The root of the file's own markup has no tag in the source. -/
  main : template.main.root.tag.attributes = [] ∧ template.main.root.tag.directives = []
  roots : ∀ component ∈ template.inlineComponents.values, component.root.tag.IsLegal
  names : ∀ name ∈ template.inlineComponents.names, name ≠ ""
  bucketNames : ∀ name ∈ template.buckets.names, name ≠ ""
  buckets : ∀ bucket ∈ template.buckets.values, bucket.IsWellFormed
  imports : ∀ imported ∈ template.imports, imported.IsFilled

theorem isLegal_of_mem_nodesRead {nodes : List NodeHead}
    (isSublist : nodes.Sublist ((turns source start).flatMap Turn.nodesRead)) :
    ∀ node ∈ nodes, node.IsLegal := by
  intro node member
  obtain ⟨turn, -, isRead⟩ := List.mem_flatMap.mp (isSublist.subset member)
  exact Turn.isLegal_of_mem_nodesRead node isRead

theorem ne_empty_of_mem_namedSlots {component : Component}
    (summarizes : component.SummarizesSlots) :
    ∀ name ∈ component.namedSlots.names, name ≠ "" := by
  intro name member
  rw [summarizes.namedSlots, List.mem_eraseDups] at member
  obtain ⟨node, -, isName⟩ := List.mem_filterMap.mp member
  cases node with
  | text content position => cases isName
  | element tag =>
      dsimp only at isName
      split at isName
      · exact tag.ne_empty_of_nonemptyValue? isName
      · cases isName

theorem propTypes_ne_empty (isParsed : parse source start sourcePath = .ok template) :
    ∀ component ∈ template.components, component.propTypes ≠ some "" := by
  intro component isComponent isEmpty
  obtain ⟨name, given⟩ : ∃ name, template.propTypes? name = component.propTypes := by
    rcases List.mem_cons.mp isComponent with rfl | isInline
    · exact ⟨none, rfl⟩
    · obtain ⟨⟨name, _⟩, isEntry, rfl⟩ := List.mem_map.mp isInline
      have found := NameMap.find?_eq_some_iff.mpr isEntry
      exact ⟨some name, congrArg (·.bind (·.propTypes)) found⟩
  rw [propTypes?_of_parse isParsed, isEmpty] at given
  obtain ⟨turn, -, isText⟩ := List.mem_filterMap.mp (List.mem_of_getLast? given)
  exact Turn.ne_empty_of_propTypes? isText rfl

theorem isWellFormed_of_mem_buckets (isParsed : parse source start sourcePath = .ok template)
    {name : String} {bucket : Bucket} (isEntry : (name, bucket) ∈ template.buckets.entries) :
    name ≠ "" ∧ bucket.IsWellFormed := by
  rw [entries_buckets isParsed] at isEntry
  obtain ⟨assets, rfl, nonempty, areCollected⟩ := exists_of_mem_stableGrouping isEntry
  have filled : ∀ asset ∈ assets, name ≠ "" ∧ asset.IsFilled := by
    intro asset member
    obtain ⟨turn, -, collects⟩ := List.mem_filterMap.mp (areCollected asset member)
    exact Turn.isFilled_of_collected? collects
  obtain ⟨asset, rest, rfl⟩ := List.exists_cons_of_ne_nil nonempty
  exact ⟨(filled asset List.mem_cons_self).1,
    Bucket.isWellFormed_ofAssets nonempty fun asset member => (filled asset member).2⟩

/-- What is read is well formed. -/
theorem isWellFormed_of_parse (isParsed : parse source start sourcePath = .ok template) :
    template.IsWellFormed where
  components component isComponent :=
    { nodes := isLegal_of_mem_nodesRead (nodes_sublist isParsed isComponent)
      voidElements := fun family member => respectsVoid_of_mem_families isParsed family
        (mem_families.mpr ⟨component, isComponent, member⟩)
      namedSlots := ne_empty_of_mem_namedSlots (Component.summarizesSlots_of_isMadeOf
        (isMadeOf_nodesRead isParsed component isComponent))
      propTypes := propTypes_ne_empty isParsed component isComponent }
  main := by
    rw [tag_root_main isParsed]
    exact ⟨rfl, rfl⟩
  roots component isInline :=
    isLegal_of_mem_nodesRead (root_sublist isParsed isInline) _ List.mem_cons_self
  names name isName := by
    obtain ⟨⟨_, component⟩, isEntry, rfl⟩ := List.mem_map.mp isName
    exact Tag.ne_empty_of_componentName? (componentName?_root isParsed isEntry)
  bucketNames name isName := by
    obtain ⟨⟨_, bucket⟩, isEntry, rfl⟩ := List.mem_map.mp isName
    exact (isWellFormed_of_mem_buckets isParsed isEntry).1
  buckets bucket isBucket := by
    obtain ⟨⟨name, _⟩, isEntry, rfl⟩ := List.mem_map.mp isBucket
    exact (isWellFormed_of_mem_buckets isParsed isEntry).2
  imports imported isImport := by
    rw [imports_eq isParsed] at isImport
    obtain ⟨turn, -, imports⟩ := List.mem_filterMap.mp isImport
    exact Turn.isFilled_of_imported? imports

/-- Void elements, and elements that are collected although there is hardly anything in them. -/
def sparseSource : String :=
  "<img><template #component:card><link rel=import href=c.html as><br :a=\"props.b\">t</template>" ++
    "<script></script><script #scope:page>s</script><style> </style><slot name><input>"

/-- The script without a text makes no bucket, and a void element takes up nothing. -/
theorem isWellFormed_sparseSource : ∃ template, parse sparseSource .start none = .ok template ∧
    template.inlineComponents.names = ["card"] ∧ template.buckets.names = ["default"] ∧
    template.imports.map (·.name) = [none] ∧ template.IsWellFormed := by
  have isParsed : (parse sparseSource .start none).map (fun template =>
      (template.inlineComponents.names, template.buckets.names,
        template.imports.map (·.name))) = .ok (["card"], ["default"], [none]) := by
    decide +kernel
  obtain ⟨template, isTemplate, summary⟩ := exists_ok_of_map isParsed
  obtain ⟨names, rest⟩ := Prod.mk.inj summary
  obtain ⟨buckets, imports⟩ := Prod.mk.inj rest
  exact ⟨template, isTemplate, names, buckets, imports, isWellFormed_of_parse isTemplate⟩

end Template

end TemplateMarkup
