import TemplateMarkup.Proofs.Assembly.Growth

/-!
# What can be open

The elements below a root that can be open are those whose bodies are read as markup.  An element with
a raw body is complete as soon as it has been read.  A root does not keep white space itself, so white
space is kept if and only if an element below some root asks for it.
-/

namespace TemplateMarkup

/-- The body of an element with this tag is read as text, unless the element is a root. -/
def Tag.hasRawBody (tag : Tag) : Bool :=
  TagName.hasForeignBody tag.name || tag.hasDirective "raw"

/-- A body is read as text only if the element is none that closes itself or declares a component. -/
theorem OpeningTag.isSome_rawKind? (opening : OpeningTag) : opening.rawKind?.isSome =
    (!opening.isSelfClosing && !opening.tag.isVoid && opening.tag.componentName?.isNone &&
      opening.tag.hasRawBody) := by
  unfold rawKind? Tag.hasRawBody
  cases isForeign : TagName.hasForeignBody opening.tag.name with
  | true =>
      have notComponent : opening.tag.componentName? = none :=
        Assembly.componentName?_of_place (by simp [isForeign])
      have named : opening.tag.name = "script" ∨ opening.tag.name = "style" := by
        simpa [TagName.hasForeignBody] using isForeign
      rw [notComponent]
      rcases named with named | named <;> cases opening.isSelfClosing <;>
        cases opening.tag.isVoid <;> simp [named]
  | false =>
      have named : opening.tag.name ≠ "script" ∧ opening.tag.name ≠ "style" := by
        simpa [TagName.hasForeignBody] using isForeign
      cases opening.isSelfClosing <;> cases opening.tag.isVoid <;>
        cases opening.tag.componentName? <;> cases opening.tag.hasDirective "raw" <;> simp [named]

namespace Scope

/-- The open elements of a scope are such as can be open. -/
structure OpensMarkup (scope : Scope) : Prop where
  root : TagName.keepsWhitespace scope.root.tag.name = false
  nested : ∀ tag ∈ scope.nested.map (·.tag), tag.hasRawBody = false

theorem tags_append (scope : Scope) (node : Node) :
    (scope.append node).root.tag = scope.root.tag ∧
      (scope.append node).nested.map (·.tag) = scope.nested.map (·.tag) := by
  rcases scope with ⟨root, _ | ⟨element, outer⟩, hasDefaultSlot, namedSlots, propTypes⟩ <;>
    exact ⟨rfl, rfl⟩

theorem tags_closeInnermost (scope : Scope) :
    scope.closeInnermost.root.tag = scope.root.tag ∧
      scope.closeInnermost.nested.map (·.tag) = (scope.nested.map (·.tag)).tail := by
  unfold closeInnermost
  split
  · next isClosed => exact ⟨rfl, by rw [isClosed]; rfl⟩
  · next isOpen =>
      obtain ⟨root, nested⟩ := tags_append { scope with nested := _ } _
      exact ⟨root, by rw [nested, isOpen]; rfl⟩

namespace OpensMarkup

variable {scope : Scope}

theorem ofRoot {tag : Tag} (notKept : TagName.keepsWhitespace tag.name = false) :
    (Scope.ofRoot tag).OpensMarkup :=
  ⟨notKept, nofun⟩

theorem append (opens : scope.OpensMarkup) (node : Node) : (scope.append node).OpensMarkup := by
  obtain ⟨root, nested⟩ := scope.tags_append node
  exact ⟨root ▸ opens.root, nested ▸ opens.nested⟩

theorem push (opens : scope.OpensMarkup) {tag : Tag} (notRaw : tag.hasRawBody = false) :
    (scope.push tag).OpensMarkup :=
  ⟨opens.root, List.forall_mem_cons.mpr ⟨notRaw, opens.nested⟩⟩

theorem recordSlot (opens : scope.OpensMarkup) (tag : Tag) : (scope.recordSlot tag).OpensMarkup := by
  unfold Scope.recordSlot
  split <;> exact ⟨opens.root, opens.nested⟩

theorem closeMany (opens : scope.OpensMarkup) (count : Nat) :
    (Scope.closeMany count scope).OpensMarkup := by
  induction count generalizing scope with
  | zero => exact opens
  | succ count ih =>
      obtain ⟨root, nested⟩ := scope.tags_closeInnermost
      refine ih ⟨root ▸ opens.root, fun tag member => opens.nested tag ?_⟩
      exact List.mem_of_mem_tail (nested ▸ member)

end OpensMarkup

end Scope

namespace Assembly

theorem lineage_eq (assembly : Assembly) :
    assembly.lineage = assembly.current.nested.map (·.tag) ++ [assembly.current.root.tag] :=
  List.map_append

theorem exists_lineage_eq (assembly : Assembly) :
    ∃ tag above, assembly.lineage = tag :: above := by
  obtain ⟨around, isInnermost⟩ := assembly.current.exists_elements_eq
  exact ⟨_, _, congrArg OpenElement.lineage isInnermost⟩

/-- The open elements of all scopes are such as can be open. -/
structure OpensMarkup (assembly : Assembly) : Prop where
  main : assembly.main.OpensMarkup
  inline : ∀ opened ∈ assembly.inline, opened.2.OpensMarkup

namespace OpensMarkup

variable {assembly next : Assembly}

theorem initial (start : Position) : (initial start).OpensMarkup :=
  ⟨.ofRoot rfl, nofun⟩

theorem current (opens : assembly.OpensMarkup) : assembly.current.OpensMarkup := by
  rcases assembly with ⟨main, inline, components, buckets, imports⟩
  cases inline with
  | nil => exact opens.main
  | cons opened outer => exact opens.inline opened List.mem_cons_self

theorem modifyCurrent (opens : assembly.OpensMarkup) {change : Scope → Scope}
    (changes : (change assembly.current).OpensMarkup) :
    (assembly.modifyCurrent change).OpensMarkup := by
  rcases assembly with ⟨main, inline, components, buckets, imports⟩
  cases inline with
  | nil => exact ⟨changes, nofun⟩
  | cons opened outer =>
      exact ⟨opens.main, List.forall_mem_cons.mpr ⟨changes,
        fun opened isOuter => opens.inline opened (.tail _ isOuter)⟩⟩

theorem closeScope (opens : assembly.OpensMarkup) : assembly.closeScope.OpensMarkup := by
  rcases assembly with ⟨main, inline, components, buckets, imports⟩
  cases inline with
  | nil => exact opens
  | cons opened outer => exact ⟨opens.main, fun opened isOuter => opens.inline opened (.tail _ isOuter)⟩

theorem closeScopes (opens : assembly.OpensMarkup) (count : Nat) :
    (closeScopes count assembly).OpensMarkup := by
  induction count generalizing assembly with
  | zero => exact opens
  | succ count ih => exact ih opens.closeScope

theorem closeWithin {closing : ClosingTag} {scopes : List (String × Scope)}
    (opens : assembly.OpensMarkup) (closes : closeWithin closing scopes assembly = .ok next) :
    next.OpensMarkup := by
  obtain ⟨count, depth, rfl⟩ := exists_of_closeWithin closes
  have opens := opens.closeScopes count
  exact opens.modifyCurrent (opens.current.closeMany depth)

theorem addText (opens : assembly.OpensMarkup) (run : TextRun) :
    (assembly.addText run).OpensMarkup := by
  unfold Assembly.addText
  dsimp only
  generalize (if assembly.keepsWhitespace = true then run.text else _) = text
  split
  · exact opens
  · exact opens.modifyCurrent (opens.current.append _)

theorem place (opens : assembly.OpensMarkup) (tag : Tag) (body : Option RawBody) :
    (assembly.place tag body).OpensMarkup := by
  unfold Assembly.place
  cases Destination.ofElement tag body with
  | tree => exact opens.modifyCurrent (opens.current.append _)
  | propTypes text => exact opens.modifyCurrent ⟨opens.current.root, opens.current.nested⟩
  | _ => exact ⟨opens.main, opens.inline⟩

theorem openComponent (opens : assembly.OpensMarkup) {name : String} {opening : OpeningTag}
    (declares : opening.tag.componentName? = some name)
    (opened : assembly.openComponent name opening = .ok next) : next.OpensMarkup := by
  have root : TagName.keepsWhitespace opening.tag.name = false := by
    rw [FlatAssembly.name_of_componentName?_eq_some declares]
    rfl
  unfold Assembly.openComponent at opened
  split at opened
  · cases opened
  · cases opened
    split
    · exact ⟨opens.main, opens.inline⟩
    · exact ⟨opens.main, List.forall_mem_cons.mpr ⟨.ofRoot root, opens.inline⟩⟩

theorem addElement (opens : assembly.OpensMarkup) {opening : OpeningTag} {body : Option RawBody}
    (notRaw : opening.isSelfClosing = false → opening.tag.isVoid = false → body = none →
      opening.tag.hasRawBody = false) :
    (assembly.addElement opening body).OpensMarkup := by
  have noted : (if opening.tag.name == "slot" then assembly.modifyCurrent (·.recordSlot opening.tag)
      else assembly).OpensMarkup := by
    split
    · exact opens.modifyCurrent (opens.current.recordSlot _)
    · exact opens
  unfold Assembly.addElement
  dsimp only
  split
  · exact noted.modifyCurrent (noted.current.append _)
  · next isOpened =>
      obtain ⟨⟨notSelfClosing, notVoid⟩, noBody⟩ : (opening.isSelfClosing = false ∧
          opening.tag.isVoid = false) ∧ body.isSome = false := by simpa using isOpened
      refine noted.modifyCurrent (noted.current.push (notRaw notSelfClosing notVoid ?_))
      simpa using noBody

theorem openTag (opens : assembly.OpensMarkup) {opening : OpeningTag} {body : Option RawBody}
    (hasBody : body.isSome = opening.rawKind?.isSome)
    (opened : assembly.openTag opening body = .ok next) : next.OpensMarkup := by
  unfold Assembly.openTag at opened
  split at opened
  · cases opened
    exact opens.place _ _
  · split at opened
    · next name declares => exact opens.openComponent declares opened
    · next notComponent =>
        cases opened
        refine opens.addElement fun notSelfClosing notVoid noBody => ?_
        rw [opening.isSome_rawKind?, notSelfClosing, notVoid, notComponent, noBody] at hasBody
        simpa using hasBody

end OpensMarkup

end Assembly

namespace Turn

variable {source : String} {start : Position} {turn : Turn}

/-- A tag comes with a raw body if and only if it asks for one. -/
theorem isSome_body {opening : OpeningTag} {body : Option RawBody}
    (isTag : turn.opening? = some (opening, body)) : body.isSome = opening.rawKind?.isSome := by
  unfold opening? at isTag
  split at isTag
  · have isStart := Option.some.inj isTag
    unfold Cursor.readElementStart at isStart
    dsimp only at isStart
    split at isStart
    · next noKind =>
        cases isStart
        rw [noKind]
        rfl
    · next kind isKind =>
        cases isStart
        rw [isKind]
        rfl
  · cases isTag

theorem body_eq_none {opening : OpeningTag} {body : Option RawBody}
    (isTag : turn.opening? = some (opening, body)) (notRaw : opening.tag.hasRawBody = false) :
    body = none := by
  have hasBody := isSome_body isTag
  rw [opening.isSome_rawKind?, notRaw, Bool.and_false] at hasBody
  simpa using hasBody

theorem opensMarkup : ∀ turn ∈ Template.turns source start, turn.assembly.OpensMarkup := by
  refine of_mem_onwards (.initial start) ?_
  intro turn _ next opens follows
  have opens : turn.withText.OpensMarkup := opens.addText turn.run
  rcases next?_cases follows with ⟨opening, body, isTag, opened, -⟩ | ⟨closing, -, closes, -⟩
  · exact opens.openTag (isSome_body isTag) opened
  · exact opens.closeWithin closes

/-- The innermost open element has no raw body, unless it is a root. -/
theorem hasRawBody_eq_false (member : turn ∈ Template.turns source start) {tag parent : Tag}
    {above : List Tag} (lineage : turn.assembly.lineage = tag :: parent :: above) :
    tag.hasRawBody = false := by
  have opens := (opensMarkup turn member).current
  rw [Assembly.lineage_eq] at lineage
  cases isNested : turn.assembly.current.nested.map (·.tag) with
  | nil =>
      rw [isNested] at lineage
      cases lineage
  | cons innermost outer =>
      rw [isNested] at lineage
      obtain ⟨rfl, -⟩ := List.cons.inj lineage
      exact opens.nested _ (isNested ▸ List.mem_cons_self)

/-- White space is kept below an open element that asks for it. -/
theorem keepsWhitespace_of_lineage (member : turn ∈ Template.turns source start)
    (keeps : turn.assembly.lineage.any fun tag => TagName.keepsWhitespace tag.name) :
    turn.assembly.keepsWhitespace := by
  have opens := (opensMarkup turn member).current
  have inner : turn.assembly.current.keepsWhitespace := by
    unfold Scope.keepsWhitespace
    rw [Assembly.lineage_eq, List.any_append, List.any_map] at keeps
    simpa [opens.root] using keeps
  unfold Assembly.keepsWhitespace
  unfold Assembly.current at inner
  split at inner
  · rw [inner, Bool.true_or]
  · next isOpen =>
      rw [isOpen, List.any_cons, inner]
      simp

end Turn

end TemplateMarkup
