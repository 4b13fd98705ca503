import TemplateMarkup.Proofs.Assembly.Scopes
import TemplateMarkup.Proofs.Canonical.Spacing
import TemplateMarkup.Proofs.Canonical.Tokens

/-!
# Assembly of a written forest

The tokens of a canonical forest put its nodes, one after the other, into the innermost open element.
An element without a closing tag is put there at once.  Any other element is opened, gets its children
by induction, and is closed by its own closing tag, since nothing inside it is left open.
-/

namespace TemplateMarkup

namespace Scope

/-- Add nodes to the innermost open element. -/
def appendAll (scope : Scope) (nodes : List Node) : Scope :=
  nodes.foldl append scope

theorem appendAll_of_nested (scope : Scope) (tag : Tag) (latest nodes : List Node)
    (outer : List OpenElement) :
    appendAll { scope with nested := ⟨tag, latest⟩ :: outer } nodes =
      { scope with nested := ⟨tag, nodes.reverse ++ latest⟩ :: outer } := by
  induction nodes generalizing latest with
  | nil => rfl
  | cons node rest ih =>
      rw [appendAll, List.foldl_cons]
      refine (ih (node :: latest)).trans ?_
      simp

/-- A root without open elements gets the nodes itself. -/
theorem toComponent_appendAll_ofRoot (tag : Tag) (nodes : List Node) :
    ((ofRoot tag).appendAll nodes).toComponent = ⟨⟨tag, nodes⟩, false, .empty, none⟩ := by
  have filled (latest : List Node) : appendAll { ofRoot tag with root := ⟨tag, latest⟩ } nodes =
      { ofRoot tag with root := ⟨tag, nodes.reverse ++ latest⟩ } := by
    induction nodes generalizing latest with
    | nil => rfl
    | cons node rest ih =>
        rw [appendAll, List.foldl_cons]
        refine (ih (node :: latest)).trans ?_
        simp
  have whole : (ofRoot tag).appendAll nodes =
      { ofRoot tag with root := ⟨tag, nodes.reverse ++ []⟩ } := filled []
  rw [whole, toComponent]
  simp [ofRoot, closeMany, OpenElement.toElement]

/-- An element that has got its children becomes a child of the element around it. -/
theorem closeMany_push_appendAll (scope : Scope) (tag : Tag) (children : List Node) :
    closeMany 1 ((scope.push tag).appendAll children) = scope.append (.element tag children) := by
  have filled : (scope.push tag).appendAll children =
      { scope with nested := ⟨tag, children.reverse ++ []⟩ :: scope.nested } :=
    appendAll_of_nested scope tag [] children scope.nested
  rw [filled, closeMany, closeMany, closeInnermost]
  simp [OpenElement.toElement, Element.toNode]

theorem depthOf?_push_appendAll (scope : Scope) (tag : Tag) (children : List Node) :
    ((scope.push tag).appendAll children).depthOf? tag.name = some 1 := by
  have filled : (scope.push tag).appendAll children =
      { scope with nested := ⟨tag, children.reverse ++ []⟩ :: scope.nested } :=
    appendAll_of_nested scope tag [] children scope.nested
  rw [filled, depthOf?]
  simp [List.findIdx?_cons]

end Scope

namespace Assembly

theorem step_textToken_nil (assembly : Assembly) (ending : TextEnd) :
    assembly.step (textToken [] ending) = .ok assembly := by
  have nothing (policy : WhitespacePolicy) : policy.apply [] = [] := by
    simp [WhitespacePolicy.apply, WhitespacePolicy.edge, trimEnds]
  simp [step, textToken, addText, nothing]

theorem step_textToken {assembly : Assembly} {content : List Char} {ending : TextEnd}
    (nonempty : content ≠ []) (spaced : IsSpaced content)
    (leading : assembly.current.innermost.latest = [] → content.head? ≠ some ' ')
    (trailing : ending ≠ .openingTag → content.getLast? ≠ some ' ') :
    assembly.step (textToken content ending) =
      .ok (assembly.modifyCurrent (·.append (.text (String.ofList content) .start))) := by
  have kept : (WhitespacePolicy.between assembly.current.innermost.latest.isEmpty
      (ending ≠ .openingTag)).apply content = content := by
    refine WhitespacePolicy.apply_eq_self spaced ?_ ?_
    · intro isFirst
      exact leading (List.isEmpty_iff.mp isFirst)
    · intro isLast
      exact trailing (of_decide_eq_true isLast)
  have notEmpty : (String.ofList content).isEmpty = false := by
    rw [Bool.eq_false_iff, ne_eq, String.isEmpty_iff]
    simpa using nonempty
  simp only [step, textToken, addText, String.toList_ofList, kept, ite_self, notEmpty,
    Bool.false_eq_true, if_false]

theorem step_opening (assembly : Assembly) {name : List Char}
    {attributes : List WrittenAttribute} (closesItself : Bool) (span : Span)
    (ordinary : IsOrdinaryName name)
    (notComponent : String.ofList name = "template" →
      ∀ written ∈ attributes, ¬ written.label.HasName "component") :
    assembly.step (.opening ⟨writtenTag name attributes, closesItself, span⟩ none) =
      .ok (assembly.modifyCurrent fun scope =>
        if endsAtOnce name closesItself then scope.append (.element (writtenTag name attributes) [])
        else scope.push (writtenTag name attributes)) := by
  have noComponent : (writtenTag name attributes).componentName? = none := by
    unfold Tag.componentName?
    split
    · next isTemplate =>
        rw [Tag.argument?, directive?_writtenTag (by decide)
          (notComponent (beq_iff_eq.mp isTemplate)), Option.bind_none]
    · rfl
  have notLink : ((writtenTag name attributes).name == "link") = false :=
    ordinary.beq_eq_false "link" (by decide)
  have notForeign : TagName.hasForeignBody (writtenTag name attributes).name = false :=
    Bool.or_eq_false_iff.mpr ⟨ordinary.beq_eq_false "script" (by decide),
      ordinary.beq_eq_false "style" (by decide)⟩
  have notSlot : ((writtenTag name attributes).name == "slot") = false :=
    ordinary.beq_eq_false "slot" (by decide)
  simp only [step, openTag, notLink, notForeign, noComponent, addElement, notSlot, Bool.or_false,
    Bool.false_eq_true, if_false, Option.isSome_none]
  by_cases atOnce : endsAtOnce name closesItself = true
  · have isClosed : (closesItself || (writtenTag name attributes).isVoid) = true := atOnce
    rw [if_pos isClosed]
    simp only [atOnce, if_true, addClosed, RawBody.children]
  · have isOpen : ¬ (closesItself || (writtenTag name attributes).isVoid) = true := atOnce
    rw [if_neg isOpen]
    simp only [atOnce, if_false, Bool.false_eq_true]

/-- What ends a text that stands before the given siblings. -/
def endingBefore (siblings : List WrittenNode) (ending : TextEnd) : TextEnd :=
  if siblings.isEmpty then ending else .openingTag

/-- A pending text is one step, and the siblings after it are the others. -/
theorem foldlM_tokensAll_of_pending {assembly after : Assembly} {pending : List Char}
    {siblings : List WrittenNode} {ending : TextEnd}
    (apart : WrittenNode.TextsAreApart (.text pending :: siblings))
    (stepped : assembly.step (textToken pending (endingBefore siblings ending)) = .ok after) :
    (WrittenNode.tokensAll pending siblings ending).foldlM step assembly =
      (WrittenNode.tokensAll [] siblings ending).foldlM step after := by
  cases siblings with
  | nil =>
      have nothing := step_textToken_nil after ending
      have stepped : assembly.step (textToken pending ending) = .ok after := stepped
      simp only [WrittenNode.tokensAll, List.foldlM_cons, stepped, nothing]
  | cons sibling rest =>
      cases sibling with
      | text content => exact absurd apart (by simp [WrittenNode.TextsAreApart])
      | element name attributes closesItself children =>
          have nothing := step_textToken_nil after .openingTag
          have stepped : assembly.step (textToken pending .openingTag) = .ok after := stepped
          simp only [WrittenNode.tokensAll, List.foldlM_cons, stepped, nothing]

/-- The tokens of siblings put them into the innermost open element, wherever that is. -/
def Builds (siblings : List WrittenNode) : Prop :=
  ∀ (assembly : Assembly) (ending : TextEnd), ending ≠ .openingTag →
    (assembly.current.innermost.latest = [] → WrittenNode.StartIsTight siblings) →
      (WrittenNode.tokensAll [] siblings ending).foldlM step assembly =
        .ok (assembly.modifyCurrent (·.appendAll (WrittenNode.toNodes siblings)))

/-- The tokens of an element put it into the innermost open element. -/
theorem foldlM_tokens_of_element (assembly : Assembly) {name : List Char}
    {attributes : List WrittenAttribute} {closesItself : Bool} {children : List WrittenNode}
    (buildsChildren : Builds children)
    (canonical : (WrittenNode.element name attributes closesItself children).IsCanonical) :
    (WrittenNode.element name attributes closesItself children).tokens.foldlM step assembly =
      .ok (assembly.modifyCurrent
        (·.append (WrittenNode.element name attributes closesItself children).toNode)) := by
  obtain ⟨ordinary, -, -, notComponent, childless, fits, -⟩ := canonical
  have opening := step_opening assembly closesItself ⟨0, 0⟩ ordinary notComponent
  rw [WrittenNode.tokens, List.foldlM_cons, opening]
  by_cases atOnce : endsAtOnce name closesItself = true
  · rw [if_pos atOnce, WrittenNode.toNode, childless atOnce]
    simp only [atOnce, if_true]
    rfl
  · rw [if_neg atOnce, WrittenNode.toNode]
    simp only [atOnce, if_false, Bool.false_eq_true]
    let opened := assembly.modifyCurrent (·.push (writtenTag name attributes))
    let filled := opened.modifyCurrent (·.appendAll (WrittenNode.toNodes children))
    have body : (WrittenNode.tokensAll [] children .closingTag).foldlM step opened = .ok filled :=
      buildsChildren opened .closingTag (by decide) fun _ => fits.2.1
    have isOpen : filled.current.depthOf? (String.ofList name) = some 1 := by
      rw [current_modifyCurrent, current_modifyCurrent]
      exact Scope.depthOf?_push_appendAll _ (writtenTag name attributes) _
    have closing : filled.step (.closing ⟨String.ofList name, .start, ⟨0, 0⟩⟩) =
        .ok (filled.modifyCurrent (Scope.closeMany 1)) := closeTag_of_depthOf? isOpen
    have closed : filled.modifyCurrent (Scope.closeMany 1) = assembly.modifyCurrent
        (·.append (.element (writtenTag name attributes) (WrittenNode.toNodes children))) := by
      rw [modifyCurrent_modifyCurrent, modifyCurrent_modifyCurrent]
      congr 1
      funext scope
      exact Scope.closeMany_push_appendAll scope _ _
    calc (WrittenNode.tokensAll [] children .closingTag ++
          [Token.closing ⟨String.ofList name, .start, ⟨0, 0⟩⟩]).foldlM step opened
      _ = filled.step (.closing ⟨String.ofList name, .start, ⟨0, 0⟩⟩) >>= pure := by
          rw [List.foldlM_append, body]
          rfl
      _ = .ok (assembly.modifyCurrent (·.append
            (.element (writtenTag name attributes) (WrittenNode.toNodes children)))) := by
          rw [closing, closed]
          rfl

theorem textsAreApart_of_cons {sibling : WrittenNode} {rest : List WrittenNode}
    (apart : WrittenNode.TextsAreApart (sibling :: rest)) : WrittenNode.TextsAreApart rest := by
  cases sibling with
  | element name attributes closesItself children => exact apart
  | text content =>
      cases rest with
      | nil => trivial
      | cons next rest =>
          cases next with
          | text content => exact absurd apart (by simp [WrittenNode.TextsAreApart])
          | element name attributes closesItself children => exact apart

theorem endIsTight_of_cons {sibling : WrittenNode} {rest : List WrittenNode}
    (tight : WrittenNode.EndIsTight (sibling :: rest)) : WrittenNode.EndIsTight rest := by
  cases rest with
  | nil => trivial
  | cons next rest => cases sibling <;> exact tight

/-- The tokens of canonical siblings build them. -/
theorem builds_of_canonical {siblings : List WrittenNode}
    (canonical : WrittenNode.AreCanonical siblings) (apart : WrittenNode.TextsAreApart siblings)
    (tightEnd : WrittenNode.EndIsTight siblings) : Builds siblings := by
  induction siblings using WrittenNode.forestInduction with
  | nil =>
      intro assembly ending _ _
      rw [WrittenNode.tokensAll, List.foldlM_cons, step_textToken_nil]
      exact congrArg Except.ok (modifyCurrent_self assembly).symm
  | text content rest ih =>
      intro assembly ending isEnding tightStart
      obtain ⟨⟨nonempty, -, spaced⟩, canonicalRest⟩ := canonical
      let after := assembly.modifyCurrent (·.append (.text (String.ofList content) .start))
      have stepped : assembly.step (textToken content (endingBefore rest ending)) = .ok after := by
        refine step_textToken nonempty spaced tightStart ?_
        cases rest with
        | nil => exact fun _ => tightEnd
        | cons sibling rest => exact fun notOpening => absurd rfl notOpening
      have builds := ih canonicalRest (textsAreApart_of_cons apart) (endIsTight_of_cons tightEnd)
      have notFirst : after.current.innermost.latest ≠ [] := by
        rw [current_modifyCurrent]
        exact Scope.latest_append_ne_nil _ _
      rw [WrittenNode.tokensAll, List.nil_append, foldlM_tokensAll_of_pending apart stepped,
        builds after ending isEnding fun isFirst => absurd isFirst notFirst,
        modifyCurrent_modifyCurrent]
      rfl
  | element name attributes closesItself children rest ihChildren ihRest =>
      intro assembly ending isEnding _
      obtain ⟨canonicalElement, canonicalRest⟩ := canonical
      have buildsChildren : Builds children := by
        obtain ⟨-, -, -, -, -, ⟨apartChildren, -, tightChildren⟩, canonicalChildren⟩ :=
          canonicalElement
        exact ihChildren canonicalChildren apartChildren tightChildren
      have builds := ihRest canonicalRest (textsAreApart_of_cons apart) (endIsTight_of_cons tightEnd)
      let after := assembly.modifyCurrent
        (·.append (WrittenNode.element name attributes closesItself children).toNode)
      have element : (WrittenNode.element name attributes closesItself children).tokens.foldlM step
          assembly = .ok after := foldlM_tokens_of_element assembly buildsChildren canonicalElement
      have notFirst : after.current.innermost.latest ≠ [] := by
        rw [current_modifyCurrent]
        exact Scope.latest_append_ne_nil _ _
      have later := builds after ending isEnding fun isFirst => absurd isFirst notFirst
      rw [WrittenNode.tokensAll, List.foldlM_cons, step_textToken_nil]
      calc ((WrittenNode.element name attributes closesItself children).tokens ++
            WrittenNode.tokensAll [] rest ending).foldlM step assembly
        _ = (WrittenNode.tokensAll [] rest ending).foldlM step after := by
            rw [List.foldlM_append, element]
            rfl
        _ = .ok (assembly.modifyCurrent (·.appendAll
              (WrittenNode.toNodes (.element name attributes closesItself children :: rest)))) := by
            rw [later, modifyCurrent_modifyCurrent]
            rfl

end Assembly

namespace Template

/-- The template of a file whose markup is the given forest and nothing else, without positions. -/
def ofForest (forest : List WrittenNode) (sourcePath : Option String) : Template :=
  { sourcePath
    main := ⟨⟨.bare "" .start, WrittenNode.toNodes forest⟩, false, .empty, none⟩
    inlineComponents := .empty
    buckets := .empty
    imports := [] }

theorem ofTokens_tokensAll {forest : List WrittenNode}
    (canonical : WrittenNode.AreCanonical forest) (fits : WrittenNode.TextsFit forest)
    (sourcePath : Option String) :
    ofTokens (WrittenNode.tokensAll [] forest .endOfInput) .start sourcePath =
      .ok (ofForest forest sourcePath) := by
  have builds := Assembly.builds_of_canonical canonical fits.1 fits.2.2
  rw [ofTokens, builds (.initial .start) .endOfInput (by decide) fun _ => fits.2.1]
  have main := Scope.toComponent_appendAll_ofRoot (.bare "" .start) (WrittenNode.toNodes forest)
  refine congrArg Except.ok ?_
  simp only [Assembly.finish, Assembly.modifyCurrent, Assembly.initial, List.length_nil,
    Assembly.closeScopes, main]
  rfl

/-- However a canonical forest is written, reading it gives the forest back. -/
theorem parse_writeAll {forest : List WrittenNode} (canonical : WrittenNode.AreCanonical forest)
    (fits : WrittenNode.TextsFit forest) (start : Position) (sourcePath : Option String) :
    ∃ template, parse (String.ofList (WrittenNode.writeAll forest)) start sourcePath = .ok template ∧
      template.reword .unplaced = ofForest forest sourcePath := by
  have unplaced := ofTokens_reword .unplaced
    (Token.scan (String.ofList (WrittenNode.writeAll forest)) start) start sourcePath
  rw [Token.scan_writeAll canonical] at unplaced
  have read := unplaced.symm.trans (ofTokens_tokensAll canonical fits sourcePath)
  rw [parse]
  cases outcome : ofTokens (Token.scan (String.ofList (WrittenNode.writeAll forest)) start) start
      sourcePath with
  | error fault =>
      rw [outcome] at read
      cases read
  | ok template =>
      rw [outcome] at read
      exact ⟨template, rfl, Except.ok.inj read⟩

/-- Every kind of label, every way to write a value, and both ways to end an element. -/
def greeting : List WrittenNode :=
  [.element "div".toList
    [⟨.plain "class".toList, some ⟨.between '"', "a b".toList⟩⟩,
      ⟨.plain "title".toList, some ⟨.between '\'', "".toList⟩⟩,
      ⟨.binding "id".toList, some ⟨.between '`', "props.id".toList⟩⟩,
      ⟨.directive "on".toList (some "click".toList), some ⟨.bare, "run".toList⟩⟩,
      ⟨.directive [] none, none⟩]
    false
    [.text "Hello ".toList, .element "br".toList [] true [], .text "world".toList]]

theorem parse_greeting :
    ∃ template,
      parse "<div class=\"a b\" title='' :id=\x60props.id\x60 #on:click=run #>Hello <br/>world</div>"
          ⟨4, 2⟩ (some "hello.html") = .ok template ∧
        template.reword .unplaced =
          { sourcePath := some "hello.html"
            main := ⟨⟨.bare "" .start,
              [.element
                { name := "div"
                  attributes := [⟨"class", some "a b", .start⟩, ⟨"title", some "", .start⟩]
                  directives :=
                    [⟨"attr", some "id", some "props.id", true, false, .start⟩,
                      ⟨"on", some "click", some "run", false, false, .start⟩,
                      ⟨"", none, none, false, false, .start⟩]
                  position := .start }
                [.text "Hello " .start, .element (.bare "br" .start) [], .text "world" .start]]⟩,
              false, .empty, none⟩
            inlineComponents := .empty
            buckets := .empty
            imports := [] } := by
  have canonical : WrittenNode.AreCanonical greeting := by
    simp only [greeting, WrittenNode.AreCanonical, WrittenNode.IsCanonical,
      WrittenNode.TextsFit, WrittenNode.TextsAreApart, WrittenNode.StartIsTight,
      WrittenNode.EndIsTight]
    decide
  have fits : WrittenNode.TextsFit greeting := by
    simp only [greeting, WrittenNode.TextsFit, WrittenNode.TextsAreApart,
      WrittenNode.StartIsTight, WrittenNode.EndIsTight]
    decide
  exact parse_writeAll canonical fits ⟨4, 2⟩ (some "hello.html")

end Template

end TemplateMarkup
