import TemplateMarkup.Proofs.Assembly.OpenNames
import TemplateMarkup.Proofs.Markup.Course

/-!
# Closing what would be closed anyway

A closing tag closes everything that was opened inside of its element, and the end of the source closes
everything that is still open.  If all of this is closed by tags of its own directly before, innermost
first, the source says the same.

Each of the new tags closes the innermost open node, and the text between two of them is empty.  So
they do one after the other what is done at once in the source without them.
-/

namespace TemplateMarkup

open CharacterClass

/-- Closing tags for the given names, one after the other. -/
def closingTags (names : List String) : List Char :=
  names.flatMap fun name => writeClosingTag name.toList

/-- The names of what is closed at a place in a text run without a tag of its own: all that is open
inside of the element whose closing tag is ahead, and all that is open if none is. -/
def Assembly.closedImplicitly (assembly : Assembly) (place : Cursor) : List String :=
  if place.isClosingTagAhead then
    assembly.openNames.takeWhile (· != place.readClosingTag.1.name)
  else
    assembly.openNames

/-- Such a name is read back from a closing tag. -/
def IsTagName (name : String) : Prop :=
  ∀ character ∈ name.toList, isNameCharacter character

theorem Cursor.Runs.isTagName {tokens : List Token} {start stop : Cursor}
    (runs : Runs tokens start stop) {opening : OpeningTag} {body : Option RawBody}
    (isRead : .opening opening body ∈ tokens) : IsTagName opening.tag.name := by
  induction runs with
  | done => cases isRead
  | @opening _ start _ _ _ _ ih =>
      rcases List.mem_cons.mp isRead with isText | isRead
      · cases isText
      rcases List.mem_cons.mp isRead with isFirst | isLater
      · cases isFirst
        have legal := start.readText.2.isNameCharacter_of_readOpeningTag
        unfold readElementStart
        simp only
        split <;> exact legal
      · exact ih isLater
  | closing _ _ _ ih =>
      rcases List.mem_cons.mp isRead with isText | isRead
      · cases isText
      rcases List.mem_cons.mp isRead with isFirst | isLater
      · cases isFirst
      · exact ih isLater

namespace FlatAssembly

variable {flat next : FlatAssembly} {tokens : List Token} {name : String}

/-- Whatever is open was open before or has been opened by one of the tags. -/
theorem mem_openNames_foldlM (run : tokens.foldlM FlatAssembly.step flat = .ok next)
    (isOpen : name ∈ next.openNames) :
    name ∈ flat.openNames ∨ ∃ opening body, .opening opening body ∈ tokens ∧
      opening.tag.name = name := by
  refine holds_of_foldlM (fun state : FlatAssembly => name ∈ state.openNames →
    name ∈ flat.openNames ∨ ∃ opening body, .opening opening body ∈ tokens ∧
      opening.tag.name = name) .inl ?_ run isOpen
  intro token isRead state later step before isOpen
  rcases mem_openNames_step step isOpen with wasOpen | ⟨opening, body, rfl, -, same⟩
  · exact before wasOpen
  · exact .inr ⟨opening, body, isRead, same⟩

theorem step_textToken_nil (flat : FlatAssembly) (ending : TextEnd) :
    flat.step (textToken [] ending) = .ok flat :=
  congrArg Except.ok (flat.addText_of_text_eq rfl)

theorem step_textToken_ending {content : List Char} {ending ending' : TextEnd}
    (notOpening : ending ≠ .openingTag) (notOpening' : ending' ≠ .openingTag) :
    flat.step (textToken content ending') = flat.step (textToken content ending) := by
  have same : decide (ending' ≠ .openingTag) = decide (ending ≠ .openingTag) := by
    rw [decide_eq_true notOpening, decide_eq_true notOpening']
  simp only [step, textToken, addText, same]

end FlatAssembly

namespace Cursor

/-- Nothing, or a closing tag. -/
def EndsElement (rest : List Char) : Prop :=
  ∃ ending, EndsForest ending rest

variable {rest : List Char} {place : Cursor}

theorem endsElement_of_place (isEnd : place.isClosingTagAhead ∨ place.ahead = []) :
    EndsElement place.ahead := by
  rcases isEnd with isClosing | atEnd
  · obtain ⟨rest, ahead⟩ := List.isPrefixOf_iff_prefix.mp isClosing
    exact ⟨.closingTag, ahead ▸ .closingTag rest⟩
  · exact ⟨.endOfInput, atEnd ▸ .endOfInput⟩

theorem EndsElement.closingTags_append (ends : EndsElement rest) (names : List String) :
    EndsElement (closingTags names ++ rest) := by
  cases names with
  | nil => exact ends
  | cons name names => exact ⟨.closingTag, .closingTag _⟩

theorem EndsElement.standsApart (ends : EndsElement rest) : StandsApart rest := by
  obtain ⟨ending, ends⟩ := ends
  cases ends with
  | endOfInput => rfl
  | closingTag => rfl

theorem EndsElement.readTextPieces_eq (ends : EndsElement place.ahead) :
    place.readTextPieces = ([], place) ∧ place.textEnd ≠ .openingTag := by
  obtain ⟨ending, ends⟩ := ends
  obtain ⟨atTag, isEnding⟩ := ends.textEnd_eq
  refine ⟨readTextPieces_at_tag atTag, ?_⟩
  rw [isEnding]
  generalize place.ahead = rest at ends
  cases ends <;> nofun

/-- Closing tags for what is innermost close it, node by node. -/
theorem foldlM_closingTags {names : List String} {cursor : Cursor} {flat : FlatAssembly}
    (ends : EndsElement rest) (legal : ∀ name ∈ names, IsTagName name)
    (areOpen : names <+: flat.openNames) (ahead : cursor.ahead = closingTags names ++ rest) :
    ∃ place : Cursor, place.ahead = rest ∧
      cursor.unplacedTokensAtTag.foldlM FlatAssembly.step flat =
        place.unplacedTokensAtTag.foldlM FlatAssembly.step
          (FlatAssembly.popMany names.length flat) := by
  induction names generalizing cursor flat with
  | nil => exact ⟨cursor, ahead, rfl⟩
  | cons name names ih =>
      obtain ⟨below, openNames⟩ := areOpen
      have aheadFirst : cursor.ahead =
          writeClosingTag name.toList ++ (closingTags names ++ rest) := by
        rw [ahead, closingTags, List.flatMap_cons, List.append_assoc]
        rfl
      obtain ⟨after, aheadAfter, tokens⟩ :=
        unplacedTokens_at_closingTag aheadFirst (legal name List.mem_cons_self)
      have endsAfter : EndsElement after.ahead := aheadAfter ▸ ends.closingTags_append names
      obtain ⟨noText, -⟩ := endsAfter.readTextPieces_eq
      have popped : names <+: flat.pop.openNames := by
        rw [FlatAssembly.openNames_pop, ← openNames]
        exact ⟨below, rfl⟩
      have isInnermost : flat.openNames =
          (⟨String.ofList name.toList, .start, ⟨0, 0⟩⟩ : ClosingTag).name :: (names ++ below) := by
        rw [← openNames, String.ofList_toList]
        rfl
      have closes := FlatAssembly.closeTag_head isInnermost
      obtain ⟨place, aheadPlace, later⟩ :=
        ih (fun other member => legal other (List.mem_cons_of_mem _ member)) popped aheadAfter
      refine ⟨place, aheadPlace, ?_⟩
      rw [tokens, unplacedTokens_eq, noText, List.foldlM_cons, FlatAssembly.step, closes]
      show (textToken [] _ :: _).foldlM FlatAssembly.step flat.pop = _
      rw [List.foldlM_cons, FlatAssembly.step_textToken_nil]
      exact later

/-- From the place on, nothing is lost by closing at once what is closed there anyway. -/
theorem finish_foldlM_popMany {names : List String} {flat : FlatAssembly}
    (implied : names = if place.isClosingTagAhead then
      flat.openNames.takeWhile (· != place.readClosingTag.1.name) else flat.openNames)
    (isEnd : place.isClosingTagAhead ∨ place.ahead = []) (sourcePath : Option String) :
    (place.unplacedTokensAtTag.foldlM FlatAssembly.step
        (FlatAssembly.popMany names.length flat)).map (·.finish sourcePath) =
      (place.unplacedTokensAtTag.foldlM FlatAssembly.step flat).map (·.finish sourcePath) := by
  unfold unplacedTokensAtTag tokensAtTag
  cases isClosing : place.isClosingTagAhead with
  | true =>
      rw [isClosing, if_pos rfl] at implied
      rw [if_neg (by simp [not_isOpeningTagAhead isClosing]), if_pos rfl]
      simp only [List.map_cons, List.foldlM_cons]
      -- The tag closes the same node, whether what is inside of it is still open or not.
      have sameStep : (FlatAssembly.popMany names.length flat).step
          (Token.reword .unplaced (.closing place.readClosingTag.1)) =
            flat.step (Token.reword .unplaced (.closing place.readClosingTag.1)) := by
        rw [implied]
        exact flat.closeTag_popMany (place.readClosingTag.1.reword .unplaced)
      rw [sameStep]
  | false =>
      have atEnd := isEnd.resolve_left (by simp [isClosing])
      have notOpening : place.isOpeningTagAhead = false := by
        simp [isOpeningTagAhead, isOn_of_ahead_nil atEnd]
      rw [isClosing, if_neg (by simp)] at implied
      rw [if_neg (by simp [notOpening]), if_neg (by simp)]
      refine congrArg Except.ok (FlatAssembly.finish_popMany ?_ sourcePath)
      rw [implied, FlatAssembly.length_openNames]

end Cursor

theorem Assembly.openNames_unplaced (assembly : Assembly) :
    (assembly.reword .unplaced).openNames = assembly.openNames := by
  have names (nested : List OpenElement) :
      (nested.map (·.reword .unplaced)).map (·.tag.name) = nested.map (·.tag.name) := by
    rw [List.map_map]
    rfl
  simp only [openNames, reword, Scope.reword, names, List.flatMap_map, rewordOpen]

/-- Closing tags written before a closing tag, or before the end of the source, for everything that is
closed there without a tag of its own change nothing but positions. -/
theorem Template.parse_insertClosingTags {before after : String} {tokens : List Token}
    {text : List Char} {start : Position} {place : Cursor} {assembly : Assembly}
    {sourcePath : Option String} {template : Template}
    (isTemplate : parse (before ++ after) start sourcePath = .ok template)
    (reached : (Cursor.atStart (before ++ after) start).Reaches tokens text place)
    (atBoundary : place.ahead = after.toList) (isEnd : place.isClosingTagAhead ∨ after = "")
    (isOpen : tokens.foldlM Assembly.step (.initial start) = .ok assembly) :
    ∃ template', parse (before ++ String.ofList (closingTags (assembly.closedImplicitly place)) ++ after)
        start sourcePath = .ok template' ∧
      template'.reword .unplaced = template.reword .unplaced := by
  let names := assembly.closedImplicitly place
  let source := before ++ String.ofList (closingTags names) ++ after
  have isEnd : place.isClosingTagAhead ∨ place.ahead = [] := by
    refine isEnd.imp_right ?_
    rintro rfl
    exact atBoundary
  have ends := Cursor.endsElement_of_place isEnd
  have ends' := ends.closingTags_append names
  -- The course to the place leads to the new closing tags in the new source.
  have ahead : (Cursor.atStart (before ++ after) start).ahead = before.toList ++ place.ahead := by
    simp [Cursor.atStart, atBoundary]
  have ahead' : (Cursor.atStart source start).ahead =
      before.toList ++ (closingTags names ++ place.ahead) := by
    simp [Cursor.atStart, source, atBoundary]
  obtain ⟨tokens', place', reached', same, aheadTags⟩ :=
    reached.exists_of_ahead ends'.standsApart ahead ahead'
  obtain ⟨noText, notOpening⟩ := ends.readTextPieces_eq
  obtain ⟨noText', notOpening'⟩ := Cursor.EndsElement.readTextPieces_eq (aheadTags ▸ ends')
  have run : (tokens.map (·.reword .unplaced)).foldlM FlatAssembly.step (.initial .start) =
      .ok (assembly.reword .unplaced).flatten := by
    have reworded := Assembly.foldlM_step_reword .unplaced (.initial start) tokens
    rw [isOpen, Assembly.initial_reword] at reworded
    show List.foldlM FlatAssembly.step (Assembly.initial .start).flatten _ = _
    rw [Assembly.foldlM_step_flatten]
    exact congrArg (Except.map Assembly.flatten) reworded
  let flat := (assembly.reword .unplaced).flatten.addText ⟨String.ofList text, place.textEnd, .start⟩
  have openNames : flat.openNames = assembly.openNames := by
    rw [FlatAssembly.openNames_addText, Assembly.openNames_flatten, Assembly.openNames_unplaced]
  have implied : names = if place.isClosingTagAhead then
      flat.openNames.takeWhile (· != place.readClosingTag.1.name) else flat.openNames := by
    rw [openNames]
    rfl
  have areOpen : names <+: flat.openNames := by
    rw [implied]
    split
    · exact List.takeWhile_prefix _
    · exact List.prefix_rfl
  have legal : ∀ name ∈ names, IsTagName name := by
    intro name member
    have isOpen := areOpen.subset member
    rw [FlatAssembly.openNames_addText] at isOpen
    obtain ⟨turn, runs, -⟩ := reached'
    rcases FlatAssembly.mem_openNames_foldlM run isOpen with before | ⟨opening, body, isRead, rfl⟩
    · cases before
    · rw [← same] at isRead
      obtain ⟨token, isToken, reworded⟩ := List.mem_map.mp isRead
      cases token with
      | opening tag body =>
          cases reworded
          have legal := runs.isTagName isToken
          exact legal
      | _ => cases reworded
  obtain ⟨after', aheadAfter, closes⟩ :=
    Cursor.foldlM_closingTags ends legal areOpen aheadTags
  have agree : AgreeUnplaced (parse source start sourcePath)
      (parse (before ++ after) start sourcePath) := by
    rw [AgreeUnplaced, outcome_parse, outcome_parse, ofTokens_eq_flat, ofTokens_eq_flat,
      reached.unplacedTokens_eq, reached'.unplacedTokens_eq, same, noText, noText',
      List.append_nil, List.foldlM_append, List.foldlM_append, run]
    show ((textToken text _ :: _).foldlM FlatAssembly.step _).map _ =
      ((textToken text _ :: _).foldlM FlatAssembly.step _).map _
    rw [List.foldlM_cons, List.foldlM_cons,
      FlatAssembly.step_textToken_ending notOpening notOpening']
    show (place'.unplacedTokensAtTag.foldlM FlatAssembly.step flat).map _ =
      (place.unplacedTokensAtTag.foldlM FlatAssembly.step flat).map _
    rw [closes, Cursor.unplacedTokensAtTag_of_ahead_eq aheadAfter]
    exact Cursor.finish_foldlM_popMany implied isEnd sourcePath
  rw [isTemplate] at agree
  cases parsed : parse source start sourcePath with
  | error error =>
      rw [parsed] at agree
      cases agree
  | ok template' =>
      rw [parsed] at agree
      exact ⟨template', rfl, Except.ok.inj agree⟩

/-- An element and the component around it are closed before the closing tag of a list. -/
theorem Template.parse_closedList :
    ∃ template template',
      parse ("<ul><template #component:card><b>x" ++ "</ul>") .start none = .ok template ∧
        parse "<ul><template #component:card><b>x</b></template></ul>" .start none = .ok template' ∧
        template'.reword .unplaced = template.reword .unplaced := by
  let start := Cursor.atStart ("<ul><template #component:card><b>x" ++ "</ul>") .start
  let afterList := start.readText.2.readElementStart.2
  let afterComponent := afterList.readText.2.readElementStart.2
  let turn := afterComponent.readText.2.readElementStart.2
  let place := Cursor.advanceBy 1 turn
  obtain ⟨tokens, runs, openNames⟩ : ∃ tokens, Cursor.Runs tokens start turn ∧
      (tokens.foldlM Assembly.step (.initial .start)).map Assembly.openNames =
        .ok ["b", "template", "ul"] :=
    ⟨_, .opening (by decide +kernel) (by decide +kernel) (.opening (by decide +kernel)
      (by decide +kernel) (.opening (by decide +kernel) (by decide +kernel) (.done _))),
      by decide +kernel⟩
  obtain ⟨assembly, isOpen, openNames⟩ := exists_ok_of_map openNames
  have opened : turn.ahead = ['x'] ++ "</ul>".toList := by decide +kernel
  have passes : Cursor.Passes ['x'] turn place := Cursor.passes_advanceBy opened
  have reached : start.Reaches tokens ['x'] place := ⟨turn, runs, passes.readsText (by decide)⟩
  have isClosing : place.isClosingTagAhead := by decide +kernel
  have succeeds : (parse ("<ul><template #component:card><b>x" ++ "</ul>") .start none).map
      (fun _ => ()) = .ok () := by decide +kernel
  obtain ⟨template, isTemplate, -⟩ := exists_ok_of_map succeeds
  obtain ⟨template', isTemplate', same⟩ := parse_insertClosingTags isTemplate reached
    (by decide +kernel) (.inl isClosing) isOpen
  have closed : assembly.closedImplicitly place = ["b", "template"] := by
    have name : place.readClosingTag.1.name = "ul" := by decide +kernel
    rw [Assembly.closedImplicitly, if_pos isClosing, openNames, name]
    rfl
  rw [closed] at isTemplate'
  exact ⟨template, template', isTemplate, isTemplate', same⟩

end TemplateMarkup
