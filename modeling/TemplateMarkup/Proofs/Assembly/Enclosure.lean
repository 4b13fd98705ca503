import TemplateMarkup.Proofs.Assembly.Definition
import TemplateMarkup.Proofs.Assembly.Resemblance

/-!
# What encloses a definition does not show in it

While a definition is put together, its innermost open node is its own, and so is its innermost
component.  All that it takes from its surroundings is whether white space is kept.  If it is not, then the
frames above the base are exactly those of the definition by itself, and so are the components that it
declares.

A component that has been closed stays as it is to the end of the file.
-/

namespace TemplateMarkup

/-- A component in the upper part of a stack is changed there. -/
theorem Frame.modifyComponent?_append {change : OpenComponent → OpenComponent}
    {frames changed : List Frame} (modified : modifyComponent? change frames = some changed)
    (below : List Frame) : modifyComponent? change (frames ++ below) = some (changed ++ below) := by
  induction frames generalizing changed with
  | nil => cases modified
  | cons frame rest ih =>
      cases frame with
      | component name opened =>
          cases modified
          rfl
      | element opened =>
          obtain ⟨later, isLater, rfl⟩ := Option.map_eq_some_iff.mp modified
          rw [List.cons_append, modifyComponent?, ih isLater]
          rfl

namespace FlatAssembly

/-- The nested assembly has above the base exactly what the lone one has on the whole. -/
structure Repeats (base alone nested : FlatAssembly) : Prop extends Above base alone nested where
  sameFrames : nested.frames = alone.frames ++ base.frames
  same : ∀ {name}, name ∈ alone.components.names →
    nested.components.find? name = alone.components.find? name

namespace Repeats

variable {base alone nested next next' : FlatAssembly}

theorem exists_cons (repeats : Repeats base alone nested) (isOpen : alone.labels ≠ []) :
    ∃ frame rest, alone.frames = frame :: rest ∧ nested.frames = frame :: (rest ++ base.frames) := by
  cases frames : alone.frames with
  | nil => exact absurd (by rw [labels, frames]; rfl) isOpen
  | cons frame rest =>
      refine ⟨frame, rest, rfl, ?_⟩
      rw [repeats.sameFrames, frames]
      rfl

theorem mapHolder {change : OpenElement → OpenElement} (repeats : Repeats base alone nested)
    (isOpen : alone.labels ≠ []) (keeps : ∀ element, (change element).tag = element.tag) :
    Repeats base (alone.mapHolder change) (nested.mapHolder change) where
  toAbove := repeats.toAbove.mapHolder isOpen keeps keeps
  sameFrames := by
    obtain ⟨frame, rest, frames, frames'⟩ := repeats.exists_cons isOpen
    unfold FlatAssembly.mapHolder
    rw [frames, frames']
    rfl
  same := by
    simp only [components_mapHolder]
    exact repeats.same

theorem append (repeats : Repeats base alone nested) (isOpen : alone.labels ≠ []) (node : Node) :
    Repeats base (alone.append node) (nested.append node) := by
  rw [append_eq_mapHolder, append_eq_mapHolder]
  exact repeats.mapHolder isOpen fun _ => rfl

/-- White space is treated alike if nothing in the base keeps it. -/
theorem addText (repeats : Repeats base alone nested) (isOpen : alone.labels ≠ [])
    (trims : base.keepsWhitespace = false) (run : TextRun) :
    Repeats base (alone.addText run) (nested.addText run) := by
  obtain ⟨frame, rest, frames, frames'⟩ := repeats.exists_cons isOpen
  have sameHolder : nested.holder = alone.holder := by
    rw [holder, holder, frames, frames']
    rfl
  have sameKeeps : nested.keepsWhitespace = alone.keepsWhitespace := by
    unfold keepsWhitespace at trims ⊢
    rw [repeats.sameFrames, List.any_append, trims, Bool.or_false]
  unfold FlatAssembly.addText
  simp only [sameHolder, sameKeeps]
  generalize (if alone.keepsWhitespace then run.text else _) = text
  split
  · exact repeats
  · exact repeats.append isOpen _

theorem modifyComponent (repeats : Repeats base alone nested) (isOpen : alone.labels ≠ [])
    (change : OpenComponent → OpenComponent) :
    Repeats base (alone.modifyComponent change) (nested.modifyComponent change) where
  toAbove := repeats.toAbove.modifyComponent isOpen change
  sameFrames := by
    have isLast : alone.labels.getLast isOpen ∈ alone.labels.getLast? :=
      List.getLast?_eq_some_getLast isOpen
    obtain ⟨changed, modified, -⟩ := Frame.exists_modifyComponent?_append change
      (List.getLast_mem isOpen) (repeats.enclosed _ isLast) []
    rw [List.append_nil, List.append_nil] at modified
    unfold FlatAssembly.modifyComponent
    rw [repeats.sameFrames, modified, Frame.modifyComponent?_append modified]
  same := by
    simp only [components_modifyComponent]
    exact repeats.same

theorem push (repeats : Repeats base alone nested) (isOpen : alone.labels ≠ []) (tag : Tag) :
    Repeats base { alone with frames := .element (.ofTag tag) :: alone.frames }
      { nested with frames := .element (.ofTag tag) :: nested.frames } where
  toAbove := repeats.toAbove.push isOpen tag
  sameFrames := congrArg (_ :: ·) repeats.sameFrames
  same := repeats.same

theorem collect (repeats : Repeats base alone nested) (buckets buckets' : NameMap Bucket)
    (imports imports' : List ComponentImport) :
    Repeats base { alone with buckets, imports }
      { nested with buckets := buckets', imports := imports' } where
  toAbove := repeats.toAbove.congr rfl repeats.toAbove.frames ⟨rfl, rfl⟩ rfl
  sameFrames := repeats.sameFrames
  same := repeats.same

theorem place (repeats : Repeats base alone nested) (isOpen : alone.labels ≠ []) (tag : Tag)
    (body : Option RawBody) : Repeats base (alone.place tag body) (nested.place tag body) := by
  rcases place_cases tag body with ⟨child, placed⟩ | collected | ⟨text, noted⟩
  · rw [placed, placed]
    exact repeats.append isOpen child
  · obtain ⟨buckets, imports, placed⟩ := collected alone
    obtain ⟨buckets', imports', placed'⟩ := collected nested
    rw [placed, placed']
    exact repeats.collect buckets buckets' imports imports'
  · rw [noted, noted]
    exact repeats.modifyComponent isOpen _

theorem addElement (repeats : Repeats base alone nested) (isOpen : alone.labels ≠ [])
    (opening : OpeningTag) (body : Option RawBody) :
    Repeats base (alone.addElement opening body) (nested.addElement opening body) := by
  have noted : Repeats base (alone.noteSlot opening.tag) (nested.noteSlot opening.tag) := by
    unfold noteSlot
    split
    · exact repeats.modifyComponent isOpen _
    · exact repeats
  have isOpen : (alone.noteSlot opening.tag).labels ≠ [] := by
    rwa [(alone.sameOutline_noteSlot opening.tag).labels]
  rcases addElement_cases opening body with ⟨child, closed⟩ | ⟨-, opened⟩
  · rw [closed, closed]
    exact noted.append isOpen child
  · rw [opened, opened]
    exact noted.push isOpen opening.tag

theorem insert {name : String} {value : Option Component} {frames : List Frame}
    (repeats : Repeats base alone nested)
    (above : Above base
      { alone with frames, components := alone.components.insert name value }
      { nested with
        frames := frames ++ base.frames, components := nested.components.insert name value }) :
    Repeats base { alone with frames, components := alone.components.insert name value }
      { nested with
        frames := frames ++ base.frames, components := nested.components.insert name value } where
  toAbove := above
  sameFrames := rfl
  same {other} isDeclared := by
    by_cases isThis : other = name
    · subst isThis
      rw [NameMap.find?_insert_self, NameMap.find?_insert_self]
    · rw [NameMap.find?_insert_of_ne _ _ isThis, NameMap.find?_insert_of_ne _ _ isThis]
      exact repeats.same ((NameMap.mem_names_insert.mp isDeclared).resolve_left isThis)

theorem declare (repeats : Repeats base alone nested) {name : String}
    (isNew : name ∉ base.components.names) (tag : Tag) :
    Repeats base (alone.declare name tag) (nested.declare name tag) := by
  have above := repeats.toAbove.declare isNew tag
  unfold FlatAssembly.declare at above ⊢
  rw [repeats.sameFrames, ← List.cons_append] at above ⊢
  exact repeats.insert above

theorem pop (repeats : Repeats base alone nested) (isOpen : alone.labels ≠ []) :
    Repeats base alone.pop nested.pop := by
  have above := repeats.toAbove.pop isOpen
  obtain ⟨frame, rest, frames, frames'⟩ := repeats.exists_cons isOpen
  cases frame with
  | component name opened =>
      rw [pop_of_component frames, pop_of_component frames'] at above ⊢
      exact repeats.insert above
  | element opened =>
      refine ⟨above, ?_, ?_⟩
      · rw [pop_of_element frames, pop_of_element frames']
        -- The lowest frame is a component, so the closed element goes to a frame above the base.
        cases rest with
        | nil => cases repeats.enclosed (opened.tag.name, none) (by rw [labels, frames]; rfl)
        | cons holder rest => rfl
      · rw [pop_of_element frames, pop_of_element frames', components_mapHolder, components_mapHolder]
        exact repeats.same

theorem popMany (repeats : Repeats base alone nested) {count : Nat}
    (areOpen : count ≤ alone.labels.length) :
    Repeats base (FlatAssembly.popMany count alone) (FlatAssembly.popMany count nested) := by
  induction count generalizing alone nested with
  | zero => exact repeats
  | succ count ih =>
      have isOpen : alone.labels ≠ [] := List.ne_nil_of_length_pos (by omega)
      refine ih (repeats.pop isOpen) ?_
      rw [labels_pop, List.length_tail]
      omega

/-- A closing tag that finds something to close in the lone assembly finds the same in the nested one. -/
theorem closeTag {closing : ClosingTag} (repeats : Repeats base alone nested)
    (closes : alone.closeTag closing = .ok next) (closes' : nested.closeTag closing = .ok next') :
    Repeats base next next' := by
  obtain ⟨inside, outside, names, isFirst, rfl⟩ := exists_openNames_of_closeTag closes
  have names' : nested.openNames = inside ++ closing.name :: (outside ++ base.openNames) := by
    rw [openNames, repeats.sameFrames, List.map_append, ← openNames, ← openNames, names,
      List.append_assoc, List.cons_append]
  rw [closeTag_of_openNames names' isFirst] at closes'
  cases closes'
  refine repeats.popMany ?_
  rw [← List.length_map Prod.fst, ← openNames_eq_labels, names, List.length_append, List.length_cons]
  omega

theorem openComponent {name : String} {opening : OpeningTag} (repeats : Repeats base alone nested)
    (opened : alone.openComponent name opening = .ok next)
    (opened' : nested.openComponent name opening = .ok next') : Repeats base next next' := by
  obtain ⟨-, rfl⟩ := eq_of_openComponent opened
  obtain ⟨notNested, rfl⟩ := eq_of_openComponent opened'
  have isNew : name ∉ base.components.names := fun isBase => notNested (repeats.names.mpr (.inl isBase))
  have declared := repeats.declare isNew opening.tag
  split
  · exact declared.pop (List.cons_ne_nil _ _)
  · exact declared

theorem step {token : Token} (repeats : Repeats base alone nested) (isOpen : alone.labels ≠ [])
    (trims : base.keepsWhitespace = false) (stepped : alone.step token = .ok next)
    (stepped' : nested.step token = .ok next') : Repeats base next next' := by
  cases token with
  | text run =>
      cases stepped
      cases stepped'
      exact repeats.addText isOpen trims run
  | closing closing => exact repeats.closeTag stepped stepped'
  | opening opening body =>
      have opens : alone.openTag opening body = .ok next := stepped
      have opens' : nested.openTag opening body = .ok next' := stepped'
      rcases openTag_cases opening body with placed | ⟨name, -, opened⟩ | added
      · cases (placed alone).symm.trans opens
        cases (placed nested).symm.trans opens'
        exact repeats.place isOpen _ _
      · exact repeats.openComponent ((opened alone).symm.trans opens)
          ((opened nested).symm.trans opens')
      · cases (added alone).symm.trans opens
        cases (added nested).symm.trans opens'
        exact repeats.addElement isOpen _ _

theorem closesLast {tokens : List Token} {assembly closed : Assembly}
    (closes : Assembly.ClosesLast tokens assembly closed)
    (repeats : Repeats base assembly.flatten nested) (isOpen : assembly.flatten.labels ≠ [])
    (trims : base.keepsWhitespace = false) (run : tokens.foldlM FlatAssembly.step nested = .ok next) :
    Repeats base closed.flatten next ∧ closed.flatten.labels = [] := by
  induction closes generalizing nested with
  | @last assembly closed closing closes noneOpen =>
      have closes' : assembly.flatten.closeTag closing = .ok closed.flatten := by
        rw [Assembly.closeWithin_flatten closing _ assembly rfl]
        exact congrArg (Except.map Assembly.flatten) closes
      obtain ⟨middle, closesNested, ends⟩ := exists_of_foldlM_cons run
      cases ends
      have repeats' := repeats.closeTag closes' closesNested
      refine ⟨repeats', repeats'.toAbove.labels_eq_nil ?_⟩
      rw [Assembly.openComponents_flatten, noneOpen, List.map_nil]
  | @next tokens assembly after closed token stepped stillOpen later ih =>
      have stepped' : assembly.flatten.step token = .ok after.flatten := by
        rw [Assembly.step_flatten, stepped]
        rfl
      obtain ⟨middle, steppedNested, ends⟩ := exists_of_foldlM_cons run
      exact ih (repeats.step isOpen trims stepped' steppedNested)
        (Assembly.labels_flatten_ne_nil stillOpen) ends

end Repeats

/-- A definition without text before it is put together above a base in the same way as by itself. -/
theorem repeats_of_defines {base last : FlatAssembly} (consistent : base.IsConsistent)
    (trims : base.keepsWhitespace = false) {start : Position} {run : TextRun} {tokens : List Token}
    {closed : Assembly} (noText : run.text = "")
    (defines : Assembly.Defines start (.text run :: tokens) closed)
    (steps : tokens.foldlM FlatAssembly.step base = .ok last) :
    Repeats base closed.flatten last ∧ closed.flatten.labels = [] := by
  let begun := (Assembly.initial start).addText run
  have nothing : begun.flatten = .initial start :=
    ((Assembly.initial start).addText_flatten run).symm.trans (addText_of_text_eq noText _)
  have repeats : Repeats base begun.flatten base := by
    rw [nothing]
    exact ⟨⟨rfl, ⟨[], rfl, rfl⟩, by simp [labels, initial], fun _ => rfl,
      fun isDeclared => absurd isDeclared List.not_mem_nil,
      ⟨.inl, fun either => either.resolve_right List.not_mem_nil⟩, isConsistent_initial start,
      consistent⟩, rfl, fun isDeclared => absurd isDeclared List.not_mem_nil⟩
  -- The first tag opens a component on both sides.
  have opens {opening : OpeningTag} {body : Option RawBody} {name : String} {next : Assembly}
      {nested : FlatAssembly} (isComponent : opening.tag.componentName? = some name)
      (opened : begun.openTag opening body = .ok next)
      (opened' : base.openTag opening body = .ok nested) :
      begun.flatten.openComponent name opening = .ok next.flatten ∧
        Repeats base next.flatten nested := by
    have openedFlat : begun.flatten.openComponent name opening = .ok next.flatten := by
      rw [← openTag_of_componentName? isComponent body]
      exact (begun.step_flatten (.opening opening body)).trans (congrArg (Except.map _) opened)
    rw [openTag_of_componentName? isComponent] at opened'
    exact ⟨openedFlat, repeats.openComponent openedFlat opened'⟩
  cases defines with
  | @selfClosing _ opening body name _ isComponent isSelfClosing opened =>
      obtain ⟨nested, openedNested, ends⟩ := exists_of_foldlM_cons steps
      cases ends
      obtain ⟨openedFlat, repeats'⟩ := opens isComponent opened openedNested
      refine ⟨repeats', ?_⟩
      obtain ⟨-, closes⟩ := eq_of_openComponent openedFlat
      rw [closes, if_pos isSelfClosing, labels_pop, nothing]
      rfl
  | @closed _ opening body name tokens _ isComponent closes =>
      cases closes with
      | @next _ _ after _ _ opened isOpen later =>
          obtain ⟨nested, openedNested, ends⟩ := exists_of_foldlM_cons steps
          obtain ⟨-, repeats'⟩ := opens isComponent opened openedNested
          exact repeats'.closesLast later (Assembly.labels_flatten_ne_nil isOpen) trims ends

/-- The component has been put down under its name. -/
structure IsSettled (name : String) (component : Component) (flat : FlatAssembly) : Prop where
  find? : flat.components.find? name = some (some component)
  notOpen : name ∉ flat.openComponents

namespace IsSettled

variable {name : String} {component : Component} {flat next : FlatAssembly}

theorem congr (settled : IsSettled name component flat) (same : SameOutline flat next) :
    IsSettled name component next :=
  ⟨same.components ▸ settled.find?, same.openComponents_eq ▸ settled.notOpen⟩

theorem push (settled : IsSettled name component flat) (tag : Tag) :
    IsSettled name component { flat with frames := .element (.ofTag tag) :: flat.frames } :=
  ⟨settled.find?, settled.notOpen⟩

theorem pop (settled : IsSettled name component flat) : IsSettled name component flat.pop where
  notOpen isOpen := by
    rw [openComponents, labels_pop] at isOpen
    exact settled.notOpen (((List.tail_sublist _).filterMap _).subset isOpen)
  find? := by
    cases isTop : flat.frames with
    | nil =>
        rw [pop_of_nil isTop]
        exact settled.find?
    | cons frame below =>
        cases frame with
        | element opened =>
            rw [pop_of_element isTop, components_mapHolder]
            exact settled.find?
        | component other opened =>
            have isOther : name ≠ other := by
              rintro rfl
              refine settled.notOpen ?_
              rw [openComponents, labels, isTop]
              exact List.mem_cons_self
            rw [pop_of_component isTop, NameMap.find?_insert_of_ne _ _ isOther]
            exact settled.find?

theorem popMany (settled : IsSettled name component flat) (count : Nat) :
    IsSettled name component (FlatAssembly.popMany count flat) := by
  induction count generalizing flat with
  | zero => exact settled
  | succ count ih => exact ih settled.pop

theorem openComponent {other : String} {opening : OpeningTag} (settled : IsSettled name component flat)
    (opened : flat.openComponent other opening = .ok next) : IsSettled name component next := by
  obtain ⟨isNew, rfl⟩ := eq_of_openComponent opened
  have isOther : name ≠ other := by
    rintro rfl
    exact isNew (NameMap.mem_names_of_find? settled.find?)
  have declared : IsSettled name component (flat.declare other opening.tag) := by
    refine ⟨?_, fun isOpen => ?_⟩
    · rw [declare, NameMap.find?_insert_of_ne _ _ isOther]
      exact settled.find?
    · exact settled.notOpen ((List.mem_cons.mp isOpen).resolve_left isOther)
  split
  · exact declared.pop
  · exact declared

theorem step {token : Token} (settled : IsSettled name component flat)
    (stepped : flat.step token = .ok next) : IsSettled name component next := by
  cases token with
  | text run =>
      cases stepped
      exact settled.congr (flat.sameOutline_addText run)
  | closing closing =>
      have closes : flat.closeTag closing = .ok next := stepped
      obtain ⟨inside, outside, -, -, rfl⟩ := exists_openNames_of_closeTag closes
      exact settled.popMany _
  | opening opening body =>
      have opens : flat.openTag opening body = .ok next := stepped
      rcases openTag_outline opens with ⟨other, -, opened⟩ | same | ⟨-, same⟩
      · exact settled.openComponent opened
      · exact settled.congr same
      · exact (settled.push opening.tag).congr same

theorem foldlM {tokens : List Token} (settled : IsSettled name component flat)
    (steps : tokens.foldlM FlatAssembly.step flat = .ok next) : IsSettled name component next :=
  holds_of_foldlM (IsSettled name component) settled
    (fun _ _ _ _ stepped settled => settled.step stepped) steps

/-- A component that has been put down is in the template in the end. -/
theorem inlineComponent?_finish (settled : IsSettled name component flat)
    (sourcePath : Option String) : (flat.finish sourcePath).inlineComponent? name = some component := by
  rw [FlatAssembly.inlineComponent?_finish, (settled.popMany _).find?]
  rfl

end IsSettled

/-- What a definition declares is settled once it has been put together. -/
theorem Repeats.isSettled {base alone nested : FlatAssembly} (repeats : Repeats base alone nested)
    (isClosed : alone.labels = []) (consistent : base.IsConsistent) {name : String}
    {component : Component} (found : alone.components.find? name = some (some component)) :
    IsSettled name component nested where
  find? := (repeats.same (NameMap.mem_names_of_find? found)).trans found
  notOpen isOpen := by
    rw [openComponents, repeats.labels_eq, isClosed, List.nil_append] at isOpen
    exact repeats.apart (NameMap.mem_names_of_find? found) (consistent.isDeclared isOpen)

end FlatAssembly

end TemplateMarkup
