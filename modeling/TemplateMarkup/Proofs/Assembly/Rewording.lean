import TemplateMarkup.Proofs.Document.Rewording

/-!
# Assembly of reworded tokens

Putting a template together commutes with every rewording: reworded tokens make the reworded template,
and where the tokens have a structural fault, the reworded ones have the same fault at the same tag.
The proof goes through the operations of scopes and assemblies one by one; each of them either copies
a text, asks for a word that rewordings keep, or compares names.
-/

namespace TemplateMarkup

variable (rewording : Rewording)

def TextRun.reword (run : TextRun) : TextRun :=
  ⟨rewording.text run.text, run.ending, rewording.place run.position⟩

def RawBody.reword (body : RawBody) : RawBody :=
  ⟨rewording.text body.text, rewording.place body.position⟩

def OpeningTag.reword (opening : OpeningTag) : OpeningTag :=
  ⟨opening.tag.reword rewording, opening.isSelfClosing, rewording.span opening.span⟩

def ClosingTag.reword (closing : ClosingTag) : ClosingTag :=
  ⟨rewording.text closing.name, rewording.place closing.position, rewording.span closing.span⟩

def Token.reword : Token → Token
  | .text run => .text (run.reword rewording)
  | .opening tag body => .opening (tag.reword rewording) (body.map (·.reword rewording))
  | .closing tag => .closing (tag.reword rewording)

theorem OpeningTag.rawKind?_reword (rewording : Rewording) (opening : OpeningTag) :
    (opening.reword rewording).rawKind? = opening.rawKind? := by
  unfold rawKind?
  rw [show (opening.reword rewording).tag = opening.tag.reword rewording from rfl,
    show (opening.reword rewording).isSelfClosing = opening.isSelfClosing from rfl,
    Tag.isVoid_reword, Tag.componentName?_reword, Option.isSome_map,
    Tag.hasDirective_reword rewording _ _ (by decide), Tag.name_reword,
    rewording.text_beq_line "script" (by decide), rewording.text_beq_line "style" (by decide)]

theorem RawBody.trimmed_reword (body : RawBody) :
    (body.reword rewording).trimmed = rewording.text body.trimmed :=
  rewording.apply_policy .rawBody body.text

theorem RawBody.children_reword (body : Option RawBody) :
    children (body.map (·.reword rewording)) = Node.rewordAll rewording (children body) := by
  cases body with
  | none => rfl
  | some body =>
      simp only [Option.map_some, children, trimmed_reword, Rewording.isEmpty_text]
      split <;> rfl

namespace Destination

def reword : Destination → Destination
  | .tree => .tree
  | .imports imported => .imports (imported.reword rewording)
  | .script bucket gathered => .script (rewording.text bucket) (gathered.reword rewording)
  | .style bucket gathered => .style (rewording.text bucket) (gathered.reword rewording)
  | .propTypes types => .propTypes (rewording.text types)
  | .nowhere => .nowhere

theorem getD_text (line : String) (oneLine : '\n' ∉ line.toList) (written : Option String) :
    (written.map rewording.text).getD line = rewording.text (written.getD line) := by
  cases written with
  | none => exact (rewording.keeps_line oneLine).symm
  | some => rfl

theorem bucketName_reword (tag : Tag) :
    bucketName (tag.reword rewording) = rewording.text (bucketName tag) := by
  unfold bucketName
  rw [tag.argument?_reword rewording _ (by decide)]
  exact getD_text rewording _ (by decide) _

theorem scriptScope_reword (tag : Tag) :
    scriptScope (tag.reword rewording) = rewording.text (scriptScope tag) := by
  unfold scriptScope
  rw [tag.directive?_reword rewording _ (by decide), ← getD_text rewording _ (by decide)]
  cases tag.directive? "scope" with
  | none => rfl
  | some directive =>
      simp only [Option.map_some, Option.bind_some, Directive.reword,
        rewording.filter_nonempty_text]
      cases directive.modifier.filter (!·.isEmpty) <;> rfl

theorem ofLink_reword (tag : Tag) :
    ofLink (tag.reword rewording) = (ofLink tag).reword rewording := by
  have hasRel (rel : String) (oneLine : '\n' ∉ rel.toList) :
      (tag.reword rewording).value? "rel" = some rel ↔ tag.value? "rel" = some rel := by
    rw [tag.value?_reword rewording _ (by decide)]
    cases tag.value? "rel" with
    | none => simp
    | some value => simpa using rewording.text_eq_line rel oneLine value
  unfold ofLink
  rw [tag.nonemptyValue?_reword rewording _ (by decide)]
  cases tag.nonemptyValue? "href" with
  | none => rfl
  | some href =>
      simp only [Option.map_some, hasRel "import" (by decide), hasRel "stylesheet" (by decide),
        rewording.isRelativePath_text, tag.nonemptyValue?_reword rewording "as" (by decide),
        bucketName_reword]
      split
      · rfl
      · split <;> rfl

theorem ofScript_reword (tag : Tag) (body : Option RawBody) :
    ofScript (tag.reword rewording) (body.map (·.reword rewording)) =
      (ofScript tag body).reword rewording := by
  have bodyText : ((body.map (·.reword rewording)).map (·.trimmed)).getD "" =
      rewording.text ((body.map (·.trimmed)).getD "") := by
    rw [← getD_text rewording _ (by decide)]
    cases body with
    | none => rfl
    | some body => exact congrArg (Option.getD · "") (congrArg some (body.trimmed_reword rewording))
  unfold ofScript
  simp only [bodyText, tag.nonemptyValue?_reword rewording "src" (by decide),
    tag.hasDirective_reword rewording "render" (by decide),
    tag.hasDirective_reword rewording "types" (by decide),
    Rewording.isEmpty_text, Option.isSome_map, Option.any_map,
    rewording.isRelativePath_text]
  split
  · rfl
  split
  · rfl
  split
  · rfl
  cases tag.nonemptyValue? "src" with
  | some path =>
      simp [reword, Script.reword, AssetSource.reword, bucketName_reword, scriptScope_reword]
  | none =>
      cases body with
      | none => rfl
      | some body =>
          simp only [Option.map_none, Option.map_some]
          split
          · rfl
          · simp [reword, Script.reword, AssetSource.reword, bucketName_reword, scriptScope_reword,
              RawBody.reword]

theorem ofStyle_reword (tag : Tag) (body : Option RawBody) :
    ofStyle (tag.reword rewording) (body.map (·.reword rewording)) =
      (ofStyle tag body).reword rewording := by
  cases body with
  | none => rfl
  | some body =>
      simp only [Option.map_some, ofStyle, body.trimmed_reword rewording, Rewording.isEmpty_text,
        bucketName_reword]
      split <;> rfl

theorem ofElement_reword (tag : Tag) (body : Option RawBody) :
    ofElement (tag.reword rewording) (body.map (·.reword rewording)) =
      (ofElement tag body).reword rewording := by
  unfold ofElement
  simp only [Tag.name_reword, rewording.text_beq_line "link" (by decide),
    rewording.text_beq_line "script" (by decide),
    rewording.text_beq_line "style" (by decide),
    TagName.hasForeignBody_text, tag.hasDirective_reword rewording "raw" (by decide),
    ofLink_reword, ofScript_reword, ofStyle_reword]
  repeat' split
  all_goals rfl

end Destination

def OpenElement.reword (element : OpenElement) : OpenElement :=
  ⟨element.tag.reword rewording, Node.rewordAll rewording element.latest⟩

theorem OpenElement.toElement_reword (element : OpenElement) :
    (element.reword rewording).toElement = element.toElement.reword rewording := by
  simp [reword, toElement, Element.reword, Node.rewordAll_eq_map]

namespace Scope

def reword (scope : Scope) : Scope :=
  { root := scope.root.reword rewording
    nested := scope.nested.map (·.reword rewording)
    hasDefaultSlot := scope.hasDefaultSlot
    namedSlots := scope.namedSlots.reword rewording
    propTypes := scope.propTypes.map rewording.text }

theorem innermost_reword (scope : Scope) :
    (scope.reword rewording).innermost = scope.innermost.reword rewording := by
  unfold innermost reword
  cases scope.nested <;> rfl

theorem append_reword (scope : Scope) (child : Node) :
    (scope.reword rewording).append (child.reword rewording) =
      (scope.append child).reword rewording := by
  rcases scope with ⟨root, nested, hasDefaultSlot, namedSlots, propTypes⟩
  cases nested <;> rfl

theorem push_reword (scope : Scope) (tag : Tag) :
    (scope.reword rewording).push (tag.reword rewording) = (scope.push tag).reword rewording :=
  rfl

theorem closeInnermost_reword (scope : Scope) :
    (scope.reword rewording).closeInnermost = scope.closeInnermost.reword rewording := by
  rcases scope with ⟨root, nested, hasDefaultSlot, namedSlots, propTypes⟩
  cases nested with
  | nil => rfl
  | cons element outer =>
      simp only [reword, List.map_cons, closeInnermost]
      rw [OpenElement.toElement_reword, Element.toNode_reword]
      exact append_reword rewording ⟨root, outer, hasDefaultSlot, namedSlots, propTypes⟩ _

theorem closeMany_reword (count : Nat) (scope : Scope) :
    closeMany count (scope.reword rewording) = (closeMany count scope).reword rewording := by
  induction count generalizing scope with
  | zero => rfl
  | succ count ih => rw [closeMany, closeMany, closeInnermost_reword, ih]

theorem depthOf?_reword (scope : Scope) (name : String) :
    (scope.reword rewording).depthOf? (rewording.text name) = scope.depthOf? name := by
  unfold depthOf? reword
  rw [List.findIdx?_map]
  congr 2
  funext element
  exact rewording.text_beq_text element.tag.name name

theorem keepsWhitespace_reword (scope : Scope) :
    (scope.reword rewording).keepsWhitespace = scope.keepsWhitespace := by
  unfold keepsWhitespace reword
  rw [List.any_map]
  congr 1
  funext element
  exact TagName.keepsWhitespace_text rewording element.tag.name

theorem recordSlot_reword (scope : Scope) (tag : Tag) :
    (scope.reword rewording).recordSlot (tag.reword rewording) =
      (scope.recordSlot tag).reword rewording := by
  unfold recordSlot
  rw [tag.nonemptyValue?_reword rewording _ (by decide)]
  cases tag.nonemptyValue? "name" with
  | none => rfl
  | some name => simp [reword, NameSet.insert_reword]

theorem toComponent_reword (scope : Scope) :
    (scope.reword rewording).toComponent = scope.toComponent.reword rewording := by
  have sameLength : (scope.reword rewording).nested.length = scope.nested.length :=
    List.length_map _
  unfold toComponent
  simp only [sameLength, closeMany_reword, Component.reword]
  rw [← OpenElement.toElement_reword]
  rfl

end Scope

namespace Assembly

/-- Reword one of the open components. -/
def rewordOpen (opened : String × Scope) : String × Scope :=
  (rewording.text opened.1, opened.2.reword rewording)

def reword (assembly : Assembly) : Assembly :=
  { main := assembly.main.reword rewording
    inline := assembly.inline.map (rewordOpen rewording)
    components := assembly.components.reword rewording (Option.map (·.reword rewording))
    buckets := assembly.buckets.reword rewording (·.reword rewording)
    imports := assembly.imports.map (·.reword rewording) }

variable (assembly : Assembly)

theorem current_reword :
    (assembly.reword rewording).current = assembly.current.reword rewording := by
  rcases assembly with ⟨main, inline, components, buckets, imports⟩
  cases inline <;> rfl

theorem modifyCurrent_reword (change change' : Scope → Scope)
    (changes : ∀ scope, change' (scope.reword rewording) = (change scope).reword rewording) :
    (assembly.reword rewording).modifyCurrent change' =
      (assembly.modifyCurrent change).reword rewording := by
  rcases assembly with ⟨main, inline, components, buckets, imports⟩
  cases inline with
  | nil => simp [reword, modifyCurrent, changes]
  | cons opened outer => simp [reword, modifyCurrent, rewordOpen, changes]

theorem keepsWhitespace_reword :
    (assembly.reword rewording).keepsWhitespace = assembly.keepsWhitespace := by
  unfold keepsWhitespace
  rw [show (assembly.reword rewording).main = assembly.main.reword rewording from rfl,
    show (assembly.reword rewording).inline = assembly.inline.map (rewordOpen rewording) from rfl,
    Scope.keepsWhitespace_reword, List.any_map]
  congr 2
  funext opened
  exact opened.2.keepsWhitespace_reword rewording

private theorem appendText_reword (content : String) (position : Position) :
    (if content.isEmpty then assembly.reword rewording
      else (assembly.reword rewording).modifyCurrent
        (·.append (.text (rewording.text content) (rewording.place position)))) =
      (if content.isEmpty then assembly
        else assembly.modifyCurrent (·.append (.text content position))).reword rewording := by
  split
  · rfl
  · exact modifyCurrent_reword rewording assembly _ _ fun scope =>
      scope.append_reword rewording (.text content position)

theorem addText_reword (run : TextRun) :
    (assembly.reword rewording).addText (run.reword rewording) =
      (assembly.addText run).reword rewording := by
  have first : (assembly.reword rewording).current.innermost.latest.isEmpty =
      assembly.current.innermost.latest.isEmpty := by
    rw [current_reword, Scope.innermost_reword, OpenElement.reword, Node.rewordAll_eq_map,
      List.isEmpty_map]
  have kept (policy : WhitespacePolicy) :
      (if assembly.keepsWhitespace then rewording.text run.text
        else String.ofList (policy.apply (rewording.text run.text).toList)) =
      rewording.text (if assembly.keepsWhitespace then run.text
        else String.ofList (policy.apply run.text.toList)) := by
    split
    · rfl
    · exact rewording.apply_policy policy run.text
  unfold addText
  simp only [first, keepsWhitespace_reword, TextRun.reword, kept, Rewording.isEmpty_text]
  exact appendText_reword rewording assembly _ run.position

theorem closeScope_reword :
    (assembly.reword rewording).closeScope = assembly.closeScope.reword rewording := by
  rcases assembly with ⟨main, inline, components, buckets, imports⟩
  cases inline with
  | nil => rfl
  | cons opened outer =>
      simp only [reword, closeScope, List.map_cons, rewordOpen, Scope.toComponent_reword]
      congr 1
      exact components.insert_reword rewording (Option.map (·.reword rewording)) opened.1
        (some opened.2.toComponent)

theorem openComponent_reword (name : String) (opening : OpeningTag) :
    (assembly.reword rewording).openComponent (rewording.text name) (opening.reword rewording) =
      rewording.outcome (reword rewording) (assembly.openComponent name opening) := by
  unfold openComponent
  rw [show (assembly.reword rewording).components =
      assembly.components.reword rewording (Option.map (·.reword rewording)) from rfl,
    NameMap.contains_reword]
  split
  · rfl
  · have opened : ({ assembly.reword rewording with
          inline := (rewording.text name, .ofRoot (opening.tag.reword rewording)) ::
            (assembly.reword rewording).inline
          components := (assembly.components.reword rewording
            (Option.map (·.reword rewording))).insert (rewording.text name) none } : Assembly) =
        ({ assembly with
            inline := (name, .ofRoot opening.tag) :: assembly.inline
            components := assembly.components.insert name none } : Assembly).reword rewording := by
      simp only [reword, List.map_cons]
      congr 1
      exact assembly.components.insert_reword rewording (Option.map (·.reword rewording)) name none
    simp only [OpeningTag.reword, opened, closeScope_reword]
    split <;> rfl

theorem addClosed_reword (tag : Tag) (body : Option RawBody) :
    (assembly.reword rewording).addClosed (tag.reword rewording) (body.map (·.reword rewording)) =
      (assembly.addClosed tag body).reword rewording := by
  refine modifyCurrent_reword rewording assembly _ _ fun scope => ?_
  rw [RawBody.children_reword]
  exact scope.append_reword rewording (.element tag (RawBody.children body))

theorem place_reword (tag : Tag) (body : Option RawBody) :
    (assembly.reword rewording).place (tag.reword rewording) (body.map (·.reword rewording)) =
      (assembly.place tag body).reword rewording := by
  unfold place
  rw [Destination.ofElement_reword]
  cases Destination.ofElement tag body with
  | tree => exact addClosed_reword rewording assembly tag body
  | imports imported => simp [Destination.reword, reword]
  | script bucket script =>
      simp only [Destination.reword, addScript, reword]
      congr 1
      refine NameMap.update_reword rewording (·.reword rewording) assembly.buckets bucket .empty
        _ _ fun gathered => ?_
      simp [Bucket.reword]
  | style bucket style =>
      simp only [Destination.reword, addStyle, reword]
      congr 1
      refine NameMap.update_reword rewording (·.reword rewording) assembly.buckets bucket .empty
        _ _ fun gathered => ?_
      simp [Bucket.reword]
  | propTypes text => exact modifyCurrent_reword rewording assembly _ _ fun _ => rfl
  | nowhere => rfl

theorem addElement_reword (opening : OpeningTag) (body : Option RawBody) :
    (assembly.reword rewording).addElement (opening.reword rewording)
        (body.map (·.reword rewording)) =
      (assembly.addElement opening body).reword rewording := by
  have noted : (if (opening.reword rewording).tag.name == "slot" then
        (assembly.reword rewording).modifyCurrent (·.recordSlot (opening.reword rewording).tag)
        else assembly.reword rewording) =
      (if opening.tag.name == "slot" then assembly.modifyCurrent (·.recordSlot opening.tag)
        else assembly).reword rewording := by
    simp only [OpeningTag.reword, Tag.name_reword,
      rewording.text_beq_line "slot" (by decide)]
    split
    · exact modifyCurrent_reword rewording assembly _ _ fun scope =>
        scope.recordSlot_reword rewording opening.tag
    · rfl
  unfold addElement
  simp only [noted, Option.isSome_map]
  simp only [OpeningTag.reword, Tag.isVoid_reword]
  split
  · exact addClosed_reword rewording _ opening.tag body
  · exact modifyCurrent_reword rewording _ _ _ fun scope => scope.push_reword rewording opening.tag

theorem openTag_reword (opening : OpeningTag) (body : Option RawBody) :
    (assembly.reword rewording).openTag (opening.reword rewording) (body.map (·.reword rewording)) =
      rewording.outcome (reword rewording) (assembly.openTag opening body) := by
  unfold openTag
  simp only [show (opening.reword rewording).tag = opening.tag.reword rewording from rfl,
    Tag.name_reword, rewording.text_beq_line "link" (by decide), TagName.hasForeignBody_text,
    Tag.componentName?_reword, place_reword]
  split
  · rfl
  · cases opening.tag.componentName? with
    | some name => exact openComponent_reword rewording assembly name opening
    | none => exact congrArg Except.ok (addElement_reword rewording assembly opening body)

theorem unmatched_reword (closing : ClosingTag) :
    unmatched (closing.reword rewording) = (unmatched closing).reword rewording := by
  unfold unmatched
  simp only [ClosingTag.reword, rewording.text_eq_line "template" (by decide), ParseError.reword]
  split <;> rfl

/-- The search through the open scopes goes the same way: names are compared with each other and with
`template` only. -/
theorem closeWithin_reword (closing : ClosingTag) (scopes : List (String × Scope)) :
    closeWithin (closing.reword rewording) (scopes.map (rewordOpen rewording))
        (assembly.reword rewording) =
      rewording.outcome (reword rewording) (closeWithin closing scopes assembly) := by
  have closeMany (depth : Nat) :
      (assembly.reword rewording).modifyCurrent (Scope.closeMany depth) =
        (assembly.modifyCurrent (Scope.closeMany depth)).reword rewording :=
    modifyCurrent_reword rewording assembly _ _ fun scope => scope.closeMany_reword rewording depth
  induction scopes generalizing assembly with
  | nil =>
      rw [List.map_nil, closeWithin, closeWithin, unmatched_reword,
        show (assembly.reword rewording).main = assembly.main.reword rewording from rfl,
        show (closing.reword rewording).name = rewording.text closing.name from rfl,
        Scope.depthOf?_reword]
      cases assembly.main.depthOf? closing.name with
      | none => rfl
      | some depth => exact congrArg Except.ok (closeMany depth)
  | cons opened outer ih =>
      rw [List.map_cons, rewordOpen, closeWithin, closeWithin,
        show (closing.reword rewording).name = rewording.text closing.name from rfl,
        Scope.depthOf?_reword]
      cases opened.2.depthOf? closing.name with
      | some depth => exact congrArg Except.ok (closeMany depth)
      | none =>
          simp only [rewording.text_eq_line "template" (by decide), closeScope_reword]
          split
          · rfl
          · refine ih assembly.closeScope fun depth => ?_
            exact modifyCurrent_reword rewording _ _ _ fun scope =>
              scope.closeMany_reword rewording depth

theorem step_reword (token : Token) :
    (assembly.reword rewording).step (token.reword rewording) =
      rewording.outcome (reword rewording) (assembly.step token) := by
  cases token with
  | text run => exact congrArg Except.ok (addText_reword rewording assembly run)
  | opening tag body => exact openTag_reword rewording assembly tag body
  | closing tag => exact closeWithin_reword rewording assembly tag assembly.inline

theorem foldlM_step_reword (tokens : List Token) :
    (tokens.map (·.reword rewording)).foldlM step (assembly.reword rewording) =
      rewording.outcome (reword rewording) (tokens.foldlM step assembly) := by
  induction tokens generalizing assembly with
  | nil => rfl
  | cons token rest ih =>
      rw [List.map_cons, List.foldlM_cons, List.foldlM_cons, step_reword]
      cases assembly.step token with
      | error => rfl
      | ok next => exact ih next

theorem closeScopes_reword (count : Nat) :
    closeScopes count (assembly.reword rewording) =
      (closeScopes count assembly).reword rewording := by
  induction count generalizing assembly with
  | zero => rfl
  | succ count ih => rw [closeScopes, closeScopes, closeScope_reword, ih]

theorem finish_reword (sourcePath : Option String) :
    (assembly.reword rewording).finish sourcePath =
      (assembly.finish sourcePath).reword rewording := by
  have sameLength : (assembly.reword rewording).inline.length = assembly.inline.length :=
    List.length_map _
  unfold finish
  simp only [sameLength, closeScopes_reword]
  generalize closeScopes assembly.inline.length assembly = closed
  simp only [reword, Template.reword, Scope.toComponent_reword, Template.mk.injEq, true_and,
    and_true]
  exact NameMap.filterMap_reword rewording (Option.map (·.reword rewording)) (·.reword rewording)
    id id (fun _ => rfl) closed.components

theorem initial_reword (start : Position) :
    (initial start).reword rewording = initial (rewording.place start) := by
  simp [initial, reword, Scope.reword, Scope.ofRoot, OpenElement.reword, OpenElement.ofTag,
    Tag.reword, Tag.bare, Node.rewordAll, NameSet.reword, NameSet.empty, NameMap.reword,
    NameMap.empty, show rewording.text "" = "" from rewording.keeps_line (by decide)]

end Assembly

/-- Reworded tokens make the reworded template, or fail with the reworded fault. -/
theorem Template.ofTokens_reword (tokens : List Token) (start : Position)
    (sourcePath : Option String) :
    ofTokens (tokens.map (·.reword rewording)) (rewording.place start) sourcePath =
      rewording.outcome (reword rewording) (ofTokens tokens start sourcePath) := by
  unfold ofTokens
  rw [← Assembly.initial_reword, Assembly.foldlM_step_reword]
  cases tokens.foldlM Assembly.step (.initial start) with
  | error => rfl
  | ok assembly => exact congrArg Except.ok (assembly.finish_reword rewording sourcePath)

end TemplateMarkup
