import TemplateMarkup.Proofs.Assembly.Definition
import TemplateMarkup.Proofs.Assembly.Resemblance
import TemplateMarkup.Proofs.Markup.Course

/-!
# Definitions do not disturb what is around them

The definition of an inline component may be put anywhere into a text run.  What the file's own markup
and its other components show stays as it is, except for white space, and the components of the
definition come in addition.

The run is parted where the definition is put.  Its halves are added to the same node one after the
other, so the node shows the same as if they had been added at once.
-/

namespace TemplateMarkup

open CharacterClass

namespace FlatAssembly

variable {flat last : FlatAssembly} {tokens rest : List Token}

/-- After a definition the state is one in which only the components differ from the state before, and
to which the same text has been added. -/
theorem Above.exists_resembling {alone nested : FlatAssembly} {added : List Visible}
    {change : OpenElement → OpenElement} (consistent : flat.IsConsistent)
    (adds : AddsVisible added change) (above : Above (flat.mapHolder change) alone nested)
    (isClosed : alone.labels = []) :
    ∃ around, nested = around.mapHolder change ∧
      Resembles alone.components.names flat around := by
  obtain ⟨frames, areFrames, labels⟩ := above.frames
  have sameFrames : nested.frames = (flat.mapHolder change).frames := by
    rw [isClosed, List.map_eq_nil_iff] at labels
    rw [areFrames, labels, List.nil_append]
  -- The definition has closed all that it opened, so the stack is that of the base again.
  let around : FlatAssembly :=
    { flat with
      components := nested.components, buckets := nested.buckets, imports := nested.imports }
  have same : nested = around.mapHolder change := by
    have main := above.main
    rcases nested with ⟨root, open_, components, buckets, imports⟩
    rcases flat with ⟨root', open_', components', buckets', imports'⟩
    cases open_' <;> cases main <;> cases sameFrames <;> rfl
  refine ⟨around, same, ⟨.refl _, List.forall₂_same.mpr fun frame _ => .refl frame, ?_,
    fun isAdded => above.names.mpr (.inr isAdded), consistent, ?_⟩⟩
  · intro name notAdded
    unfold visible?
    by_cases isBase : name ∈ (flat.mapHolder change).components.names
    · rw [show around.components = nested.components from rfl, above.kept isBase,
        components_mapHolder]
    · have notNested : name ∉ nested.components.names := fun isNested =>
        (above.names.mp isNested).elim isBase notAdded
      rw [components_mapHolder] at isBase
      rw [NameMap.find?_eq_none_iff.mpr isBase, NameMap.find?_eq_none_iff.mpr notNested]
  · refine above.consistent'.congr ⟨?_, rfl⟩
    rw [same, labels_mapHolder adds.tag]

/-- A run that is parted for a definition leads to the same, but for what the definition declares. -/
theorem exists_foldlM_definition (consistent : flat.IsConsistent) {start : Position}
    {closed : Assembly} {text more : List Char} {ending : TextEnd}
    (defines : Assembly.Defines start (textToken [] .openingTag :: tokens) closed)
    (run : (textToken (text ++ more) ending :: rest).foldlM step flat = .ok last)
    (isApart : ∀ name ∈ closed.components.names, name ∉ last.components.names) :
    ∃ last', (textToken text .openingTag :: (tokens ++ textToken more ending :: rest)).foldlM step
        flat = .ok last' ∧ Resembles closed.components.names last last' := by
  obtain ⟨middle, added, later⟩ := exists_of_foldlM_cons run
  cases added
  obtain ⟨change, adds, whole⟩ :=
    flat.exists_addText_eq ⟨String.ofList (text ++ more), ending, .start⟩
  obtain ⟨changeFirst, addsFirst, first⟩ :=
    flat.exists_addText_eq ⟨String.ofList text, .openingTag, .start⟩
  have declared : flat.components.names ⊆ last.components.names := by
    have grown := names_subset_foldlM later
    rwa [(flat.sameOutline_addText _).components] at grown
  have consistentFirst : (flat.mapHolder changeFirst).IsConsistent :=
    consistent.congr (sameOutline_mapHolder addsFirst.tag flat)
  obtain ⟨nested, defined, above, isClosed⟩ := exists_definition consistentFirst rfl defines <| by
    intro name isAdded isBase
    rw [components_mapHolder] at isBase
    exact isApart name isAdded (declared isBase)
  obtain ⟨around, rfl, alike⟩ := above.exists_resembling consistent addsFirst isClosed
  obtain ⟨changeSecond, addsSecond, second⟩ :=
    (around.mapHolder changeFirst).exists_addText_eq ⟨String.ofList more, ending, .start⟩
  -- Around the definition the two halves are added to the same node, one after the other.
  have addsBoth : AddsVisible (visibleText (String.ofList (text ++ more)).toList)
      (changeSecond ∘ changeFirst) := by
    have both := addsFirst.comp addsSecond
    simpa [visibleText_append] using both
  have alike := alike.mapHolder adds addsBoth
  rw [mapHolder_comp, ← second, ← whole] at alike
  obtain ⟨last', later', alikeLast⟩ := alike.foldlM later fun name isDeclared isAdded =>
    isApart name isAdded isDeclared
  refine ⟨last', ?_, alikeLast⟩
  rw [← first] at defined
  show (tokens ++ _).foldlM step (flat.addText _) = _
  rw [foldlM_append_of_ok defined]
  exact later'

end FlatAssembly

namespace Template

variable {source : String} {start : Position} {sourcePath : Option String} {template : Template}
variable {last : FlatAssembly}

theorem exists_run_of_parse (isTemplate : parse source start sourcePath = .ok template) :
    ∃ last, (Cursor.atStart source start).unplacedTokens.foldlM FlatAssembly.step (.initial .start) =
      .ok last ∧ last.finish sourcePath = template.reword .unplaced := by
  have outcome := outcome_parse source start sourcePath
  rw [isTemplate, ofTokens_eq_flat] at outcome
  exact exists_ok_of_map outcome.symm

theorem exists_parse_of_run
    (run : (Cursor.atStart source start).unplacedTokens.foldlM FlatAssembly.step (.initial .start) =
      .ok last) (sourcePath : Option String) :
    ∃ template, parse source start sourcePath = .ok template ∧
      template.reword .unplaced = last.finish sourcePath := by
  have outcome := outcome_parse source start sourcePath
  rw [ofTokens_eq_flat, run] at outcome
  cases parsed : parse source start sourcePath with
  | error fault =>
      rw [parsed] at outcome
      cases outcome
  | ok template =>
      rw [parsed] at outcome
      exact ⟨template, rfl, Except.ok.inj outcome⟩

end Template

namespace Cursor

variable {stop : Cursor}

theorem unplacedTokens_of_ahead_nil (atEnd : stop.ahead = []) :
    stop.unplacedTokens = [textToken [] stop.textEnd] := by
  rw [unplacedTokens, tokens_of_ahead_nil atEnd]
  rfl

theorem unplacedTokens_of_openingTag (atTag : stop.isOpeningTagAhead) :
    stop.unplacedTokens = textToken [] .openingTag :: stop.unplacedTokensAtTag := by
  rw [unplacedTokens, tokens_of_openingTag atTag]
  rfl

end Cursor

/-- The components that a definition declares are those of the template that it is by itself. -/
theorem Assembly.Defines.mem_names_iff {definition : String} {start : Position} {stop : Cursor}
    {tokens : List Token} {closed : Assembly} {sourcePath : Option String} {template : Template}
    (defines : Assembly.Defines start tokens closed)
    (isTemplate : Template.parse definition start sourcePath = .ok template)
    (isWhole : (Cursor.atStart definition start).Runs tokens stop) (atEnd : stop.ahead = [])
    (name : String) :
    name ∈ template.inlineComponents.names ↔ name ∈ closed.components.names := by
  obtain ⟨last, run, finished⟩ := Template.exists_run_of_parse isTemplate
  let forgotten := closed.reword .unplaced
  have defined : (tokens.map (·.reword .unplaced)).foldlM FlatAssembly.step (.initial .start) =
      .ok forgotten.flatten := by
    have same : (tokens.map (·.reword .unplaced)).foldlM Assembly.step (.initial .start) =
        .ok forgotten := (defines.reword .unplaced).foldlM_eq
    have initial : FlatAssembly.initial .start = (Assembly.initial .start).flatten := rfl
    rw [initial, Assembly.foldlM_step_flatten, same]
    rfl
  have isLast : forgotten.flatten = last := by
    rw [isWhole.unplacedTokens_eq, Cursor.unplacedTokens_of_ahead_nil atEnd,
      FlatAssembly.foldlM_append_of_ok defined] at run
    obtain ⟨middle, added, ends⟩ := exists_of_foldlM_cons run
    cases ends
    cases added
    exact (FlatAssembly.addText_of_text_eq rfl _).symm
  have consistent : last.IsConsistent := (FlatAssembly.isConsistent_initial .start).foldlM run
  have names := consistent.mem_names_finish sourcePath name
  rw [finished, ← isLast] at names
  rw [Template.reword, NameMap.names_reword_unplaced] at names
  rw [names]
  show name ∈ (closed.components.reword _ _).names ↔ _
  rw [NameMap.names_reword_unplaced]

/-- The tokens of a source with whole tags put into it: the run before them ends there, and the rest of
the run comes after them. -/
theorem Cursor.Reaches.unplacedTokens_insert {before rest : List Char} {first : Char}
    {tokens inserted : List Token} {text : List Char} {start start' place begin stop : Cursor}
    (reached : start.Reaches tokens text place) (ahead : start.ahead = before ++ place.ahead)
    (opens : begin.ahead = '<' :: first :: rest) (starts : startsTagName first)
    (isWhole : begin.Runs inserted stop) (atEnd : stop.ahead = [])
    (ahead' : start'.ahead = before ++ (begin.ahead ++ place.ahead)) :
    ∃ later, inserted.map (·.reword .unplaced) = textToken [] .openingTag :: later ∧
      start'.unplacedTokens = tokens.map (·.reword .unplaced) ++
        textToken text .openingTag :: (later ++ place.unplacedTokens) := by
  have apart : StandsApart (begin.ahead ++ place.ahead) := by
    rw [opens]
    simp [StandsApart]
    decide
  obtain ⟨tokens', place', reached', same, aheadPlace⟩ := reached.exists_of_ahead apart ahead ahead'
  have atTag : place'.isOpeningTagAhead :=
    (isOpeningTagAhead_of_ahead (aheadPlace.trans (congrArg (· ++ place.ahead) opens))).trans starts
  have shares : Shares stop.ahead place.ahead begin place' :=
    ⟨begin.ahead, by rw [atEnd, List.append_nil], aheadPlace⟩
  obtain ⟨inserted', stop', runs, sameInserted, aheadStop⟩ := isWhole.exists_of_shares shares
  have tokensPlace := runs.unplacedTokens_eq
  rw [unplacedTokens_of_openingTag atTag, sameInserted, unplacedTokens_of_ahead_eq aheadStop]
    at tokensPlace
  cases isEmpty : inserted with
  | nil =>
      rw [isEmpty] at isWhole
      cases isWhole
      rw [opens] at atEnd
      cases atEnd
  | cons token others =>
      rw [isEmpty, List.map_cons, List.cons_append, List.cons.injEq] at tokensPlace
      obtain ⟨isRun, others⟩ := tokensPlace
      refine ⟨_, by rw [List.map_cons, ← isRun], ?_⟩
      rw [reached'.unplacedTokens_eq, same, readTextPieces_at_tag (.inr (.inl atTag)), textEnd,
        if_pos atTag, others, List.append_nil]

/-- The definition of an inline component, put into a text run, changes nothing in what is visible of the
file's own markup and of its other components. -/
theorem Template.parse_insertDefinition {before after definition : String}
    {tokens defined : List Token} {text : List Char} {start definitionStart : Position}
    {place stop : Cursor} {closed : Assembly} {sourcePath definitionPath : Option String}
    {template definitionTemplate : Template}
    (isTemplate : parse (before ++ after) start sourcePath = .ok template)
    (reached : (Cursor.atStart (before ++ after) start).Reaches tokens text place)
    (atBoundary : place.ahead = after.toList)
    (isDefinition : parse definition definitionStart definitionPath = .ok definitionTemplate)
    (opens : "<template".toList <+: definition.toList)
    (isWhole : (Cursor.atStart definition definitionStart).Runs defined stop)
    (atEnd : stop.ahead = []) (defines : Assembly.Defines definitionStart defined closed)
    (areNew : ∀ name ∈ definitionTemplate.inlineComponents.names,
      name ∉ template.inlineComponents.names) :
    ∃ template', parse (before ++ definition ++ after) start sourcePath = .ok template' ∧
      template'.main.visible = template.main.visible ∧
      (∀ name component, template.inlineComponent? name = some component →
        ∃ component', template'.inlineComponent? name = some component' ∧
          component'.visible = component.visible) ∧
      ∀ name, name ∈ template'.inlineComponents.names ↔
        name ∈ template.inlineComponents.names ∨ name ∈ definitionTemplate.inlineComponents.names := by
  let begin := Cursor.atStart definition definitionStart
  obtain ⟨rest, beginsWith⟩ := opens
  have ahead : (Cursor.atStart (before ++ after) start).ahead = before.toList ++ place.ahead := by
    simp [Cursor.atStart, atBoundary]
  have ahead' : (Cursor.atStart (before ++ definition ++ after) start).ahead =
      before.toList ++ (begin.ahead ++ place.ahead) := by
    simp [begin, Cursor.atStart, atBoundary]
  have aheadBegin : begin.ahead = '<' :: 't' :: ("emplate".toList ++ rest) := by
    simp [begin, Cursor.atStart, ← beginsWith]
  obtain ⟨inserted, areInserted, tokens_eq⟩ :=
    reached.unplacedTokens_insert ahead aheadBegin (by decide) isWhole atEnd ahead'
  -- Only what is left of the tokens without their positions is compared from here on.
  have declared := defines.mem_names_iff isDefinition isWhole atEnd
  have forgets : (closed.reword .unplaced).components.names = closed.components.names :=
    NameMap.names_reword_unplaced _ _
  have defines := defines.reword .unplaced
  rw [areInserted] at defines
  obtain ⟨last, run, finished⟩ := exists_run_of_parse isTemplate
  rw [reached.unplacedTokens_eq] at run
  obtain ⟨flat, began, ended⟩ := FlatAssembly.exists_of_foldlM_append run
  have consistent := (FlatAssembly.isConsistent_initial .start).foldlM began
  have names (name : String) :
      name ∈ template.inlineComponents.names ↔ name ∈ last.components.names := by
    rw [← (consistent.foldlM ended).mem_names_finish sourcePath, finished, reword,
      NameMap.names_reword_unplaced]
  obtain ⟨last', ended', alike⟩ := FlatAssembly.exists_foldlM_definition consistent defines ended <| by
    rw [forgets]
    intro name isAdded isLast
    exact areNew name ((declared name).mpr isAdded) ((names name).mpr isLast)
  have run' : (Cursor.atStart (before ++ definition ++ after) start).unplacedTokens.foldlM
      FlatAssembly.step (.initial .start) = .ok last' := by
    rw [tokens_eq, FlatAssembly.foldlM_append_of_ok began, place.unplacedTokens_eq]
    exact ended'
  obtain ⟨template', isTemplate', finished'⟩ := exists_parse_of_run run' sourcePath
  obtain ⟨main, components, allNames⟩ := alike.finish sourcePath
  rw [forgets] at components allNames
  rw [finished, ← finished'] at main components allNames
  refine ⟨template', isTemplate', ?_, ?_, ?_⟩
  · rw [← template'.main.visible_reword, ← template.main.visible_reword]
    exact main
  · intro name component found
    have notAdded : name ∉ closed.components.names := fun isAdded =>
      areNew name ((declared name).mpr isAdded) (NameMap.mem_names_of_find? found)
    have same := components name notAdded
    rw [map_visible_inlineComponent?_reword, map_visible_inlineComponent?_reword, found] at same
    obtain ⟨component', found', visible⟩ := Option.map_eq_some_iff.mp same
    exact ⟨component', found', visible⟩
  · intro name
    have same := allNames name
    rw [reword, reword, NameMap.names_reword_unplaced, NameMap.names_reword_unplaced] at same
    rw [same, declared]

/-- A card whose paragraph is not closed, put between two words of a list item. -/
theorem Template.parse_insertDefinition_withinItem :
    ∃ template template',
      parse ("<ul><li>a " ++ "b</li></ul>") .start none = .ok template ∧
        parse ("<ul><li>a " ++ "<template #component:card><p>x</template>" ++ "b</li></ul>") .start
          none = .ok template' ∧
        template'.main.visible = template.main.visible ∧
        ∀ name, name ∈ template'.inlineComponents.names ↔ name = "card" := by
  let start := Cursor.atStart ("<ul><li>a " ++ "b</li></ul>") .start
  let afterList := start.readText.2.readElementStart.2
  let turn := afterList.readText.2.readElementStart.2
  have opened : turn.ahead = "a ".toList ++ "b</li></ul>".toList := by decide +kernel
  obtain ⟨place, passes, atBoundary⟩ := Cursor.exists_passes opened
  have reached : start.Reaches _ _ place :=
    ⟨turn, .opening (by decide +kernel) (by decide +kernel)
      (.opening (by decide +kernel) (by decide +kernel) (.done _)), passes.readsText (by decide)⟩
  let begin := Cursor.atStart "<template #component:card><p>x</template>" .start
  let inside := begin.readText.2.readElementStart.2
  let within := inside.readText.2.readElementStart.2
  let stop := within.readText.2.readClosingTag.2
  let opening := begin.readText.2.readElementStart.1
  obtain ⟨rest, isWhole, closes⟩ : ∃ rest,
      begin.Runs (.text begin.readText.1 :: .opening opening.1 opening.2 :: rest) stop ∧
        ∃ closed, Assembly.ClosesLast (.opening opening.1 opening.2 :: rest)
          ((Assembly.initial .start).addText begin.readText.1) closed :=
    ⟨_, .opening (by decide +kernel) (by decide +kernel) (.opening (by decide +kernel)
      (by decide +kernel) (.closing (by decide +kernel) (by decide +kernel) (.done _))),
      by decide +kernel⟩
  obtain ⟨closed, closes⟩ := closes
  have isComponent : opening.1.tag.componentName? = some "card" := by decide +kernel
  have defines := Assembly.Defines.closed isComponent closes
  have declaresNone : (parse ("<ul><li>a " ++ "b</li></ul>") .start none).map
      (·.inlineComponents.names) = .ok [] := by decide +kernel
  have declaresCard : (parse "<template #component:card><p>x</template>" .start none).map
      (·.inlineComponents.names) = .ok ["card"] := by decide +kernel
  obtain ⟨template, isTemplate, isNew⟩ := exists_ok_of_map declaresNone
  obtain ⟨definition, isDefinition, names⟩ := exists_ok_of_map declaresCard
  obtain ⟨template', isTemplate', visible, -, allNames⟩ := parse_insertDefinition isTemplate reached
    atBoundary isDefinition (by decide) isWhole (by decide +kernel) defines (by simp [isNew])
  refine ⟨template, template', isTemplate, isTemplate', visible, fun name => ?_⟩
  rw [allNames, isNew, names]
  simp

end TemplateMarkup
