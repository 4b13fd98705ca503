import TemplateMarkup.Proofs.Assembly.Enclosure
import TemplateMarkup.Proofs.Markup.Relocation

/-!
# Components do not depend on where they are declared

A definition says the same within a file as by itself, as long as nothing around it keeps white space.  Its
tokens are the same but for the positions, which are counted from the place of the definition, and what is
made of them does not depend on what is around them.
-/

namespace TemplateMarkup

section

variable {definition : String} {tokens : List Token} {stop : Cursor} {closed : Assembly}
variable {sourcePath : Option String} {template : Template}

theorem Assembly.foldlM_flatten_of_ok {assembly next : Assembly}
    (run : tokens.foldlM step assembly = .ok next) :
    tokens.foldlM FlatAssembly.step assembly.flatten = .ok next.flatten := by
  rw [foldlM_step_flatten, run]
  rfl

/-- What a definition is read as by itself. -/
theorem Assembly.Defines.finish_eq (defines : Assembly.Defines .start tokens closed)
    (isTemplate : Template.parse definition .start sourcePath = .ok template)
    (isWhole : (Cursor.atStart definition .start).Runs tokens stop) (atEnd : stop.ahead = []) :
    closed.flatten.finish sourcePath = template := by
  have scanned : Token.scan definition .start = tokens ++ stop.tokens := isWhole.tokens_eq
  rw [Template.parse, scanned, Cursor.tokens_of_ahead_nil atEnd, Template.ofTokens_eq_flat] at isTemplate
  have defined : tokens.foldlM FlatAssembly.step (.initial .start) = .ok closed.flatten :=
    foldlM_flatten_of_ok defines.foldlM_eq
  have added : [Token.text ⟨"", stop.textEnd, stop.position⟩].foldlM FlatAssembly.step closed.flatten =
      .ok closed.flatten := congrArg Except.ok (FlatAssembly.addText_of_text_eq rfl _)
  rw [FlatAssembly.foldlM_append_of_ok defined, added] at isTemplate
  exact Except.ok.inj isTemplate

end

/-- A tree has no spans. -/
theorem Node.reword_placing (place : Position → Position) (node : Node) :
    node.reword (.placing place) = node.reword (.moving place) := by
  induction node using Node.induction with
  | text content position => rfl
  | element tag children ih =>
      rw [reword, reword, rewordAll_eq_map, rewordAll_eq_map, List.map_congr_left ih]
      rfl

theorem Component.reword_placing (place : Position → Position) (component : Component) :
    component.reword (.placing place) = component.reword (.moving place) := by
  have children : Node.rewordAll (.placing place) component.root.children =
      Node.rewordAll (.moving place) component.root.children := by
    rw [Node.rewordAll_eq_map, Node.rewordAll_eq_map]
    exact List.map_congr_left fun child _ => child.reword_placing place
  unfold reword Element.reword
  rw [children]
  rfl

theorem Template.inlineComponent?_reword_placing (place : Position → Position) (template : Template)
    (name : String) :
    (template.reword (.placing place)).inlineComponent? name =
      (template.inlineComponent? name).map (·.reword (.moving place)) := by
  have same := funext (Component.reword_placing place)
  show _ = (template.inlineComponent? name).map (Component.reword (.moving place))
  rw [← same]
  exact NameMap.find?_reword (.placing place) (Component.reword (.placing place))
    template.inlineComponents name

namespace FlatAssembly

theorem keepsWhitespace_addText (flat : FlatAssembly) (run : TextRun) :
    (flat.addText run).keepsWhitespace = flat.keepsWhitespace := by
  have names (flat : FlatAssembly) :
      flat.keepsWhitespace = flat.openNames.any TagName.keepsWhitespace := by
    rw [keepsWhitespace, openNames, List.any_map]
    rfl
  rw [names, names, openNames_addText]

/-- Where nothing is open, the components are those that the finished template has. -/
theorem find?_of_inlineComponent? {flat : FlatAssembly} (noneOpen : flat.labels = [])
    {sourcePath : Option String} {name : String} {component : Component}
    (found : (flat.finish sourcePath).inlineComponent? name = some component) :
    flat.components.find? name = some (some component) := by
  have noFrames : flat.frames = [] := List.map_eq_nil_iff.mp noneOpen
  rw [inlineComponent?_finish, noFrames] at found
  obtain ⟨value, isValue, rfl⟩ := Option.bind_eq_some_iff.mp found
  exact isValue

/-- A definition within a run that succeeds declares what it declares by itself. -/
theorem inlineComponent?_of_defines {start definitionStart : Position} {base last : FlatAssembly}
    {run : TextRun} {first later rest : List Token} {closed : Assembly} {definitionPath : Option String}
    (begun : first.foldlM step (.initial start) = .ok base) (trims : base.keepsWhitespace = false)
    (noText : run.text = "") (defines : Assembly.Defines definitionStart (.text run :: later) closed)
    (steps : (first ++ (later ++ rest)).foldlM step (.initial start) = .ok last)
    {name : String} {component : Component}
    (declared : (closed.flatten.finish definitionPath).inlineComponent? name = some component)
    (sourcePath : Option String) :
    (last.finish sourcePath).inlineComponent? name = some component := by
  have consistent : base.IsConsistent := (isConsistent_initial start).foldlM begun
  rw [foldlM_append_of_ok begun] at steps
  obtain ⟨nested, within, ended⟩ := exists_of_foldlM_append steps
  obtain ⟨repeats, noneOpen⟩ := repeats_of_defines consistent trims noText defines within
  have settled := repeats.isSettled noneOpen consistent (find?_of_inlineComponent? noneOpen declared)
  exact (settled.foldlM ended).inlineComponent?_finish sourcePath

end FlatAssembly

theorem Template.exists_placed_run {source : String} {start : Position} {sourcePath : Option String}
    {template : Template} (isTemplate : parse source start sourcePath = .ok template) :
    ∃ last, ((Cursor.atStart source start).tokens.map (·.reword (.placing id))).foldlM
        FlatAssembly.step (.initial start) = .ok last ∧ last.finish sourcePath = template := by
  have outcome := ofTokens_reword (.placing id) (Token.scan source start) start sourcePath
  have isTemplate : ofTokens (Token.scan source start) start sourcePath = .ok template := isTemplate
  rw [isTemplate, Rewording.outcome, reword_eq_self Rewording.keeps_placing_id, ofTokens_eq_flat]
    at outcome
  exact exists_ok_of_map outcome

/-- What a component says does not depend on where the definition stands that declares it.  Only its
positions are counted from there. -/
theorem Template.inlineComponent?_definition {before definition after : String}
    {tokens defined : List Token} {text : List Char} {start : Position} {place stop : Cursor}
    {opened closed : Assembly} {sourcePath definitionPath : Option String}
    {template definitionTemplate : Template}
    (isTemplate : parse (before ++ definition ++ after) start sourcePath = .ok template)
    (reached : (Cursor.atStart (before ++ definition ++ after) start).Reaches tokens text place)
    (atDefinition : place.ahead = definition.toList ++ after.toList)
    (begun : tokens.foldlM Assembly.step (.initial start) = .ok opened)
    (trims : opened.keepsWhitespace = false)
    (isDefinition : parse definition .start definitionPath = .ok definitionTemplate)
    (opens : "<template".toList <+: definition.toList)
    (isWhole : (Cursor.atStart definition .start).Runs defined stop) (atEnd : stop.ahead = [])
    (defines : Assembly.Defines .start defined closed) {name : String} {component : Component}
    (declared : definitionTemplate.inlineComponent? name = some component) :
    template.inlineComponent? name = some (component.reword (.moving place.position.movedTo)) := by
  let relocation := Rewording.placing place.position.movedTo
  have atTag : place.isOpeningTagAhead := by
    obtain ⟨rest, beginsWith⟩ := opens
    rw [← beginsWith] at atDefinition
    exact Cursor.isOpeningTagAhead_of_ahead atDefinition
  -- The tokens of the definition are found at its place, with their positions moved.
  have shares : Cursor.Shares stop.ahead after.toList (.atStart definition .start) place :=
    ⟨definition.toList, by rw [atEnd, List.append_nil]; rfl, atDefinition⟩
  obtain ⟨inserted, stop', runs, sameTokens, -⟩ :=
    isWhole.exists_moved shares ⟨rfl, Position.isCounted_start⟩
  obtain ⟨position, scanned⟩ := reached.tokens_eq atTag
  have atPlace := runs.tokens_eq
  rw [Cursor.tokens_of_openingTag atTag] at atPlace
  have definesMoved := defines.reword relocation
  rw [← sameTokens] at definesMoved
  cases isInserted : inserted with
  | nil =>
      rw [isInserted] at definesMoved
      cases definesMoved
  | cons token later =>
      rw [isInserted, List.cons_append, List.cons.injEq] at atPlace
      obtain ⟨rfl, atPlace⟩ := atPlace
      rw [isInserted, List.map_cons] at definesMoved
      have begun' : (tokens.map (·.reword (.placing id))).foldlM FlatAssembly.step (.initial start) =
          .ok (opened.reword (.placing id)).flatten := by
        have reworded := Assembly.foldlM_step_reword (.placing id) (.initial start) tokens
        rw [begun, Assembly.initial_reword] at reworded
        exact Assembly.foldlM_flatten_of_ok reworded
      obtain ⟨last, run, finished⟩ := exists_placed_run isTemplate
      rw [scanned, atPlace, List.map_append, List.map_cons, List.map_append,
        ← List.singleton_append, ← List.append_assoc] at run
      have declared' : ((closed.reword relocation).flatten.finish definitionPath).inlineComponent? name =
          some (component.reword (.moving place.position.movedTo)) := by
        rw [Assembly.finish_flatten, Assembly.finish_reword, ← Assembly.finish_flatten,
          defines.finish_eq isDefinition isWhole atEnd, inlineComponent?_reword_placing, declared]
        rfl
      rw [← finished]
      refine FlatAssembly.inlineComponent?_of_defines
        ((FlatAssembly.foldlM_append_of_ok begun' _).trans rfl) ?_ rfl definesMoved run declared'
        sourcePath
      rw [FlatAssembly.keepsWhitespace_addText, Assembly.keepsWhitespace_flatten,
        Assembly.keepsWhitespace_reword, trims]

/-- A card whose paragraph is not closed, declared in the second line of a list. -/
theorem Template.inlineComponent?_definition_withinItem :
    ∃ template definitionTemplate component,
      parse ("<ul>\n<li>a " ++ "<template #component:card>\n<p>x</template>" ++ "b</li></ul>") .start
          none = .ok template ∧
        parse "<template #component:card>\n<p>x</template>" .start none = .ok definitionTemplate ∧
        definitionTemplate.inlineComponent? "card" = some component ∧
        template.inlineComponent? "card" =
          some (component.reword (.moving (Position.mk 2 7).movedTo)) := by
  let start := Cursor.atStart
    ("<ul>\n<li>a " ++ "<template #component:card>\n<p>x</template>" ++ "b</li></ul>") .start
  let afterList := start.readText.2.readElementStart.2
  let turn := afterList.readText.2.readElementStart.2
  let place := Cursor.advanceBy 2 turn
  have ahead : turn.ahead = "a ".toList ++
      ("<template #component:card>\n<p>x</template>".toList ++ "b</li></ul>".toList) := by
    decide +kernel
  have passes : Cursor.Passes "a ".toList turn place := Cursor.passes_advanceBy ahead
  obtain ⟨tokens, runs, trims⟩ : ∃ tokens, start.Runs tokens turn ∧
      (tokens.foldlM Assembly.step (.initial .start)).map (·.keepsWhitespace) = .ok false :=
    ⟨_, .opening (by decide +kernel) (by decide +kernel) (.opening (by decide +kernel)
      (by decide +kernel) (.done _)), by decide +kernel⟩
  obtain ⟨opened, begun, trims⟩ := exists_ok_of_map trims
  have reached : start.Reaches tokens "a ".toList place :=
    ⟨turn, runs, passes.readsText (by decide)⟩
  let begin := Cursor.atStart "<template #component:card>\n<p>x</template>" .start
  let inside := begin.readText.2.readElementStart.2
  let within := inside.readText.2.readElementStart.2
  let stop := within.readText.2.readClosingTag.2
  let opening := begin.readText.2.readElementStart.1
  obtain ⟨rest, isWhole, closed, closes⟩ : ∃ rest,
      begin.Runs (.text begin.readText.1 :: .opening opening.1 opening.2 :: rest) stop ∧
        ∃ closed, Assembly.ClosesLast (.opening opening.1 opening.2 :: rest)
          ((Assembly.initial .start).addText begin.readText.1) closed :=
    ⟨_, .opening (by decide +kernel) (by decide +kernel) (.opening (by decide +kernel)
      (by decide +kernel) (.closing (by decide +kernel) (by decide +kernel) (.done _))),
      by decide +kernel⟩
  have isComponent : opening.1.tag.componentName? = some "card" := by decide +kernel
  have isParsed : (parse ("<ul>\n<li>a " ++ "<template #component:card>\n<p>x</template>" ++
      "b</li></ul>") .start none).map (fun _ => true) = .ok true := by decide +kernel
  have declaresCard : (parse "<template #component:card>\n<p>x</template>" .start none).map
      (fun template => (template.inlineComponent? "card").isSome) = .ok true := by decide +kernel
  obtain ⟨template, isTemplate, -⟩ := exists_ok_of_map isParsed
  obtain ⟨definition, isDefinition, isSome⟩ := exists_ok_of_map declaresCard
  obtain ⟨component, declared⟩ := Option.isSome_iff_exists.mp isSome
  have position : place.position = ⟨2, 7⟩ := by decide +kernel
  refine ⟨template, definition, component, isTemplate, isDefinition, declared, ?_⟩
  rw [← position]
  exact inlineComponent?_definition isTemplate reached (by decide +kernel) begun trims isDefinition
    (by decide) isWhole (by decide +kernel) (.closed isComponent closes) declared

end TemplateMarkup
