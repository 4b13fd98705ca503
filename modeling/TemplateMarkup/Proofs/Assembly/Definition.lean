import TemplateMarkup.Proofs.Assembly.Lockstep
import TemplateMarkup.Proofs.Assembly.Rewording

/-!
# Definitions of inline components

A definition is put together in the same way wherever it stands.  What it opens comes to lie above what
is open around it, with the component lowest, and no tag of it closes anything further down.  When its
last tag has closed the component, everything around it is as it was before, and some components have
been declared besides.
-/

namespace TemplateMarkup

def Token.isClosing : Token → Bool
  | closing _ => true
  | _ => false

namespace Assembly

/-- The tokens lead from one assembly to another, and no inline component is open after the last of them.
Before that there always is one. -/
inductive ClosesLast : List Token → Assembly → Assembly → Prop where
  | last {assembly closed : Assembly} {closing : ClosingTag}
      (closes : assembly.closeTag closing = .ok closed) (noneOpen : closed.inline = []) :
      ClosesLast [.closing closing] assembly closed
  | next {tokens : List Token} {assembly after closed : Assembly} {token : Token}
      (stepped : assembly.step token = .ok after) (isOpen : after.inline ≠ [])
      (later : ClosesLast tokens after closed) : ClosesLast (token :: tokens) assembly closed

/-- Whether the tokens close the last open inline component, and no token before the last one does. -/
def closesLast : List Token → Assembly → Bool
  | [], _ => false
  | token :: rest, assembly =>
      match assembly.step token with
      | .error _ => false
      | .ok after =>
          if after.inline.isEmpty then rest.isEmpty && token.isClosing else closesLast rest after

theorem closesLast_iff {tokens : List Token} {assembly : Assembly} :
    closesLast tokens assembly = true ↔ ∃ closed, ClosesLast tokens assembly closed := by
  constructor
  · intro closes
    induction tokens generalizing assembly with
    | nil => cases closes
    | cons token rest ih =>
        rw [closesLast] at closes
        split at closes
        · cases closes
        · next after stepped =>
            split at closes
            · next noneOpen =>
                obtain ⟨isLast, isClosing⟩ := Bool.and_eq_true_iff.mp closes
                obtain rfl := List.isEmpty_iff.mp isLast
                cases token with
                | closing closing => exact ⟨after, .last stepped (List.isEmpty_iff.mp noneOpen)⟩
                | _ => cases isClosing
            · next isOpen =>
                obtain ⟨closed, later⟩ := ih closes
                exact ⟨closed, .next stepped (fun none => isOpen (List.isEmpty_iff.mpr none)) later⟩
  · rintro ⟨closed, closes⟩
    induction closes with
    | @last assembly closed closing closes noneOpen =>
        have stepped : assembly.step (.closing closing) = .ok closed := closes
        simp [closesLast, stepped, noneOpen, Token.isClosing]
    | next stepped isOpen _ ih =>
        simp [closesLast, stepped, isOpen, ih]

instance (tokens : List Token) (assembly : Assembly) :
    Decidable (∃ closed, ClosesLast tokens assembly closed) :=
  decidable_of_iff _ closesLast_iff

theorem ClosesLast.foldlM_eq {tokens : List Token} {assembly closed : Assembly}
    (closes : ClosesLast tokens assembly closed) :
    tokens.foldlM step assembly = .ok closed := by
  induction closes with
  | last closes _ => rw [List.foldlM_cons, step, closes]; rfl
  | next stepped _ _ ih => rw [List.foldlM_cons, stepped]; exact ih

theorem ClosesLast.names_subset {tokens : List Token} {assembly closed : Assembly}
    (closes : ClosesLast tokens assembly closed) :
    assembly.components.names ⊆ closed.components.names := by
  have run := foldlM_step_flatten assembly tokens
  rw [closes.foldlM_eq] at run
  exact FlatAssembly.names_subset_foldlM run

theorem ClosesLast.reword {tokens : List Token} {assembly closed : Assembly}
    (closes : ClosesLast tokens assembly closed) (rewording : Rewording) :
    ClosesLast (tokens.map (·.reword rewording)) (assembly.reword rewording)
      (closed.reword rewording) := by
  induction closes with
  | @last assembly closed closing closes noneOpen =>
      have closes' := step_reword rewording assembly (.closing closing)
      rw [step, closes] at closes'
      refine .last closes' ?_
      rw [Assembly.reword, noneOpen]
      rfl
  | @next tokens assembly after closed token stepped isOpen _ ih =>
      have stepped' := step_reword rewording assembly token
      rw [stepped] at stepped'
      refine .next stepped' ?_ ih
      exact fun none => isOpen (List.map_eq_nil_iff.mp none)

/-- The tokens of one definition: a tag that declares a component, by itself or up to the tag that
closes the component. -/
inductive Defines (start : Position) : List Token → Assembly → Prop where
  | selfClosing {run : TextRun} {opening : OpeningTag} {body : Option RawBody} {name : String}
      {closed : Assembly} (isComponent : opening.tag.componentName? = some name)
      (isSelfClosing : opening.isSelfClosing)
      (opened : ((initial start).addText run).openTag opening body = .ok closed) :
      Defines start [.text run, .opening opening body] closed
  | closed {run : TextRun} {opening : OpeningTag} {body : Option RawBody} {name : String}
      {tokens : List Token} {closed : Assembly}
      (isComponent : opening.tag.componentName? = some name)
      (closes : ClosesLast (.opening opening body :: tokens) ((initial start).addText run) closed) :
      Defines start (.text run :: .opening opening body :: tokens) closed

section

variable {start : Position} {tokens : List Token} {closed : Assembly}

theorem Defines.foldlM_eq (defines : Defines start tokens closed) :
    tokens.foldlM step (.initial start) = .ok closed := by
  cases defines with
  | @selfClosing run opening body name _ _ _ opened =>
      show (((initial start).addText run).openTag opening body >>= pure) = _
      rw [opened]
      rfl
  | @closed run _ _ _ _ _ _ closes =>
      have first : step (initial start) (.text run) = .ok ((initial start).addText run) := rfl
      rw [List.foldlM_cons, first]
      exact closes.foldlM_eq

theorem Defines.reword (defines : Defines start tokens closed) (rewording : Rewording) :
    Defines (rewording.place start) (tokens.map (·.reword rewording)) (closed.reword rewording) := by
  have declared {opening : OpeningTag} {name : String}
      (isComponent : opening.tag.componentName? = some name) :
      (opening.reword rewording).tag.componentName? = some (rewording.text name) := by
    rw [OpeningTag.reword, Tag.componentName?_reword, isComponent]
    rfl
  have begins (run : TextRun) : ((initial start).addText run).reword rewording =
      (initial (rewording.place start)).addText (run.reword rewording) := by
    rw [← addText_reword, initial_reword]
  cases defines with
  | @selfClosing run opening body name _ isComponent isSelfClosing opened =>
      refine .selfClosing (declared isComponent) isSelfClosing ?_
      rw [← begins, openTag_reword, opened]
      rfl
  | @closed run _ _ _ _ _ isComponent closes =>
      refine .closed (declared isComponent) ?_
      rw [← begins]
      exact closes.reword rewording

end

theorem openComponents_flatten (assembly : Assembly) :
    assembly.flatten.openComponents = assembly.inline.map Prod.fst := by
  have elements (scope : Scope) : (scope.frames.map Frame.label).filterMap Prod.snd = [] := by
    rw [Scope.frames, List.map_map, List.filterMap_map]
    exact List.filterMap_eq_nil_iff.mpr fun _ _ => rfl
  unfold FlatAssembly.openComponents FlatAssembly.labels flatten
  rw [List.map_append, List.filterMap_append, elements, List.append_nil]
  induction assembly.inline with
  | nil => rfl
  | cons opened outer ih =>
      rw [List.flatMap_cons, List.map_append, List.filterMap_append, ih, framesOf, List.map_append,
        List.filterMap_append, elements]
      rfl

theorem labels_flatten_ne_nil {assembly : Assembly} (isOpen : assembly.inline ≠ []) :
    assembly.flatten.labels ≠ [] := by
  intro none
  have components := assembly.openComponents_flatten
  rw [FlatAssembly.openComponents, none] at components
  exact isOpen (List.map_eq_nil_iff.mp components.symm)

end Assembly

/-- A component within the upper part of a stack is changed there. -/
theorem Frame.exists_modifyComponent?_append (change : OpenComponent → OpenComponent)
    {frames : List Frame} {label : String × Option String} (member : label ∈ frames.map Frame.label)
    (isComponent : label.2.isSome) (below : List Frame) :
    ∃ changed, modifyComponent? change (frames ++ below) = some (changed ++ below) ∧
      changed.map Frame.label = frames.map Frame.label := by
  induction frames with
  | nil => cases member
  | cons frame rest ih =>
      cases frame with
      | component name opened => exact ⟨.component name (change opened) :: rest, rfl, rfl⟩
      | element opened =>
          have later : label ∈ rest.map Frame.label := by
            refine (List.mem_cons.mp member).resolve_left ?_
            rintro rfl
            cases isComponent
          obtain ⟨changed, modified, labels⟩ := ih later
          refine ⟨.element opened :: changed, ?_, by rw [List.map_cons, labels, List.map_cons]⟩
          rw [List.cons_append, modifyComponent?, modified]
          rfl

namespace FlatAssembly

/-- The nested assembly has above the base what the lone one has on the whole, as far as labels tell,
and the lowest of it is a component. -/
structure Above (base alone nested : FlatAssembly) : Prop where
  main : nested.main = base.main
  frames : ∃ above, nested.frames = above ++ base.frames ∧ above.map Frame.label = alone.labels
  enclosed : ∀ label ∈ alone.labels.getLast?, label.2.isSome
  kept : ∀ {name}, name ∈ base.components.names →
    nested.components.find? name = base.components.find? name
  apart : ∀ {name}, name ∈ alone.components.names → name ∉ base.components.names
  names : ∀ {name}, name ∈ nested.components.names ↔
    name ∈ base.components.names ∨ name ∈ alone.components.names
  consistent : alone.IsConsistent
  consistent' : nested.IsConsistent

namespace Above

variable {base alone nested next : FlatAssembly}

theorem labels_eq (above : Above base alone nested) : nested.labels = alone.labels ++ base.labels := by
  obtain ⟨frames, areFrames, labels⟩ := above.frames
  rw [FlatAssembly.labels, areFrames, List.map_append, labels, FlatAssembly.labels, FlatAssembly.labels]

/-- Nothing but the texts and the attributes of what lies above the base changes. -/
theorem congr {alone' nested' : FlatAssembly} (above : Above base alone nested)
    (main : nested'.main = nested.main)
    (frames : ∃ above, nested'.frames = above ++ base.frames ∧ above.map Frame.label = alone.labels)
    (same : SameOutline alone alone') (components : nested'.components = nested.components) :
    Above base alone' nested' := by
  have labels : nested'.labels = nested.labels := by
    obtain ⟨frames, areFrames, sameLabels⟩ := frames
    rw [FlatAssembly.labels, areFrames, List.map_append, sameLabels, above.labels_eq]
    rfl
  refine ⟨main.trans above.main, by rwa [same.labels], by rw [same.labels]; exact above.enclosed,
    ?_, ?_, ?_, above.consistent.congr same, above.consistent'.congr ⟨labels, components⟩⟩
  · rw [components]
    exact above.kept
  · rw [same.components]
    exact above.apart
  · rw [same.components, components]
    exact above.names

theorem exists_cons (above : Above base alone nested) (isOpen : alone.labels ≠ []) :
    ∃ frame rest, nested.frames = frame :: (rest ++ base.frames) ∧
      (frame :: rest).map Frame.label = alone.labels := by
  obtain ⟨frames, areFrames, labels⟩ := above.frames
  cases frames with
  | nil => exact absurd labels.symm isOpen
  | cons frame rest => exact ⟨frame, rest, areFrames, labels⟩

theorem mapHolder {change change' : OpenElement → OpenElement} (above : Above base alone nested)
    (isOpen : alone.labels ≠ []) (keeps : ∀ element, (change element).tag = element.tag)
    (keeps' : ∀ element, (change' element).tag = element.tag) :
    Above base (alone.mapHolder change) (nested.mapHolder change') := by
  obtain ⟨frame, rest, areFrames, labels⟩ := above.exists_cons isOpen
  have changed : nested.mapHolder change' =
      { nested with frames := frame.mapHolder change' :: (rest ++ base.frames) } := by
    rw [FlatAssembly.mapHolder, areFrames]
  rw [changed]
  refine above.congr rfl ⟨frame.mapHolder change' :: rest, rfl, ?_⟩
    (sameOutline_mapHolder keeps alone) rfl
  rw [List.map_cons, frame.label_mapHolder keeps', ← List.map_cons, labels]

theorem modifyComponent (above : Above base alone nested) (isOpen : alone.labels ≠ [])
    (change : OpenComponent → OpenComponent) :
    Above base (alone.modifyComponent change) (nested.modifyComponent change) := by
  obtain ⟨frames, areFrames, labels⟩ := above.frames
  have isLast : alone.labels.getLast isOpen ∈ alone.labels.getLast? :=
    List.getLast?_eq_some_getLast isOpen
  obtain ⟨changed, modified, sameLabels⟩ := Frame.exists_modifyComponent?_append change
    (by rw [labels]; exact List.getLast_mem isOpen) (above.enclosed _ isLast) base.frames
  have changes : nested.modifyComponent change = { nested with frames := changed ++ base.frames } := by
    rw [FlatAssembly.modifyComponent, areFrames, modified]
  rw [changes]
  exact above.congr rfl ⟨changed, rfl, sameLabels.trans labels⟩
    (sameOutline_modifyComponent alone change) rfl

theorem push (above : Above base alone nested) (isOpen : alone.labels ≠ []) (tag : Tag) :
    Above base { alone with frames := .element (.ofTag tag) :: alone.frames }
      { nested with frames := .element (.ofTag tag) :: nested.frames } where
  main := above.main
  frames := by
    obtain ⟨frames, areFrames, labels⟩ := above.frames
    exact ⟨.element (.ofTag tag) :: frames, congrArg (_ :: ·) areFrames, congrArg (_ :: ·) labels⟩
  enclosed := by
    show ∀ label ∈ List.getLast? (_ :: alone.labels), _
    rw [List.getLast?_cons_of_ne_nil isOpen]
    exact above.enclosed
  kept := above.kept
  apart := above.apart
  names := above.names
  consistent := above.consistent.push tag
  consistent' := above.consistent'.push tag

theorem declare (above : Above base alone nested) {name : String} (isNew : name ∉ base.components.names)
    (tag : Tag) : Above base (alone.declare name tag) (nested.declare name tag) where
  main := above.main
  frames := by
    obtain ⟨frames, areFrames, labels⟩ := above.frames
    exact ⟨.component name (.ofRoot tag) :: frames, congrArg (_ :: ·) areFrames,
      congrArg (_ :: ·) labels⟩
  enclosed := by
    show ∀ label ∈ List.getLast? (("template", some name) :: alone.labels), _
    rw [List.getLast?_cons]
    intro label isLast
    obtain rfl := Option.some.inj isLast
    cases lowest : alone.labels.getLast? with
    | none => rfl
    | some label => exact above.enclosed label lowest
  kept {other} isBase := by
    have different : other ≠ name := by
      rintro rfl
      exact isNew isBase
    rw [FlatAssembly.declare, NameMap.find?_insert_of_ne _ _ different]
    exact above.kept isBase
  apart isDeclared := by
    rcases NameMap.mem_names_insert.mp isDeclared with rfl | before
    · exact isNew
    · exact above.apart before
  names := by
    intro other
    simp only [FlatAssembly.declare, NameMap.mem_names_insert, above.names, or_left_comm]
  consistent := above.consistent.declare name tag
  consistent' := above.consistent'.declare name tag

theorem pop (above : Above base alone nested) (isOpen : alone.labels ≠ []) :
    Above base alone.pop nested.pop := by
  obtain ⟨consistent, sameNames⟩ := above.consistent.pop
  obtain ⟨consistent', sameNames'⟩ := above.consistent'.pop
  obtain ⟨frame, rest, areFrames, labels⟩ := above.exists_cons isOpen
  obtain ⟨main, frames, kept⟩ : nested.pop.main = nested.main ∧
      (∃ above, nested.pop.frames = above ++ base.frames ∧
        above.map Frame.label = alone.labels.tail) ∧
      ∀ {name}, name ∈ base.components.names →
        nested.pop.components.find? name = nested.components.find? name := by
    cases frame with
    | element opened =>
        rw [pop_of_element areFrames]
        -- The lowest frame is a component, so the closed element goes to a frame above the base.
        cases rest with
        | nil => cases above.enclosed (opened.tag.name, none) (labels ▸ rfl)
        | cons holder rest =>
            refine ⟨rfl, ⟨holder.mapHolder _ :: rest, rfl, ?_⟩, fun _ => rfl⟩
            rw [← labels, List.map_cons, holder.label_mapHolder (AddsVisible.append _).tag]
            rfl
    | component closed opened =>
        rw [pop_of_component areFrames]
        refine ⟨rfl, ⟨rest, rfl, by rw [← labels]; rfl⟩, fun isBase => ?_⟩
        refine NameMap.find?_insert_of_ne _ _ ?_
        rintro rfl
        refine above.apart (above.consistent.isDeclared ?_) isBase
        rw [openComponents, ← labels]
        exact List.mem_cons_self
  refine ⟨main.trans above.main, by rwa [labels_pop], ?_, fun isBase => ?_, ?_, ?_, consistent,
    consistent'⟩
  · rw [labels_pop, List.getLast?_tail]
    split
    · simp
    · exact above.enclosed
  · rw [kept isBase, above.kept isBase]
  · intro name isDeclared
    exact above.apart ((sameNames name).mp isDeclared)
  · intro name
    rw [sameNames', above.names, sameNames]

theorem popMany (above : Above base alone nested) {count : Nat} (areOpen : count ≤ alone.labels.length) :
    Above base (FlatAssembly.popMany count alone) (FlatAssembly.popMany count nested) := by
  induction count generalizing alone nested with
  | zero => exact above
  | succ count ih =>
      have isOpen : alone.labels ≠ [] := List.ne_nil_of_length_pos (by omega)
      refine ih (above.pop isOpen) ?_
      rw [labels_pop, List.length_tail]
      omega

/-- What a tag closes in the lone assembly it closes in the nested one, and nothing else. -/
theorem closeTag {closing : ClosingTag} (above : Above base alone nested)
    (closes : alone.closeTag closing = .ok next) :
    ∃ next', nested.closeTag closing = .ok next' ∧ Above base next next' := by
  obtain ⟨inside, outside, names, isFirst, rfl⟩ := exists_openNames_of_closeTag closes
  have names' : nested.openNames = inside ++ closing.name :: (outside ++ base.openNames) := by
    rw [openNames_eq_labels, above.labels_eq, List.map_append, ← openNames_eq_labels, names,
      ← openNames_eq_labels, List.append_assoc, List.cons_append]
  refine ⟨_, closeTag_of_openNames names' isFirst, above.popMany ?_⟩
  rw [← List.length_map Prod.fst, ← openNames_eq_labels, names, List.length_append, List.length_cons]
  omega

theorem openComponent {name : String} {opening : OpeningTag} (above : Above base alone nested)
    (opened : alone.openComponent name opening = .ok next) (isNew : name ∉ base.components.names) :
    ∃ next', nested.openComponent name opening = .ok next' ∧ Above base next next' := by
  obtain ⟨notAlone, rfl⟩ := eq_of_openComponent opened
  have isNew' : name ∉ nested.components.names := fun isDeclared =>
    (above.names.mp isDeclared).elim isNew notAlone
  have declared := above.declare isNew opening.tag
  refine ⟨_, openComponent_of_not_mem isNew' opening, ?_⟩
  split
  · exact declared.pop (List.cons_ne_nil _ _)
  · exact declared

/-- Everything goes on above the base as long as something is open there and no component of the base
is declared anew. -/
theorem lockstep (base : FlatAssembly) :
    Lockstep
      (fun alone => alone.labels ≠ [] ∧
        ∀ name ∈ alone.components.names, name ∉ base.components.names)
      (fun alone nested => Above base alone nested ∧ alone.labels ≠ []) where
  mapHolder := by
    rintro alone nested added change change' ⟨above, isOpen⟩ adds adds'
    exact ⟨above.mapHolder isOpen adds.tag adds'.tag, by rwa [labels_mapHolder adds.tag]⟩
  modifyComponent := by
    rintro alone nested change ⟨above, isOpen⟩ -
    exact ⟨above.modifyComponent isOpen change, by rwa [labels_modifyComponent]⟩
  push tag := by
    rintro ⟨above, isOpen⟩
    exact ⟨above.push isOpen tag, List.cons_ne_nil _ _⟩
  collect _ _ _ _ := by
    rintro ⟨above, isOpen⟩
    exact ⟨above.congr rfl above.frames ⟨rfl, rfl⟩ rfl, isOpen⟩
  openComponent := by
    rintro alone nested next name opening ⟨above, -⟩ opened ⟨isOpen, isApart⟩
    have isNew := isApart name (names_subset_openComponent opened List.mem_cons_self)
    obtain ⟨next', opened', above'⟩ := above.openComponent opened isNew
    exact ⟨next', opened', above', isOpen⟩
  closeTag := by
    rintro alone nested next closing ⟨above, -⟩ closes ⟨isOpen, -⟩
    obtain ⟨next', closes', above'⟩ := above.closeTag closes
    exact ⟨next', closes', above', isOpen⟩

/-- Where no component is open, nothing is. -/
theorem labels_eq_nil (above : Above base alone nested) (noneOpen : alone.openComponents = []) :
    alone.labels = [] := by
  by_contra isOpen
  have isLast : alone.labels.getLast isOpen ∈ alone.labels.getLast? :=
    List.getLast?_eq_some_getLast isOpen
  obtain ⟨name, isComponent⟩ := Option.isSome_iff_exists.mp (above.enclosed _ isLast)
  have isOpen : name ∈ alone.openComponents :=
    List.mem_filterMap.mpr ⟨_, List.getLast_mem isOpen, isComponent⟩
  rw [noneOpen] at isOpen
  cases isOpen

theorem closesLast {tokens : List Token} {assembly closed : Assembly}
    (closes : Assembly.ClosesLast tokens assembly closed)
    (above : Above base assembly.flatten nested) (isOpen : assembly.flatten.labels ≠ [])
    (isApart : ∀ name ∈ closed.components.names, name ∉ base.components.names) :
    ∃ nested', tokens.foldlM FlatAssembly.step nested = .ok nested' ∧
      Above base closed.flatten nested' ∧ closed.flatten.labels = [] := by
  induction closes generalizing nested with
  | @last assembly closed closing closes noneOpen =>
      have closes' : assembly.flatten.closeTag closing = .ok closed.flatten := by
        rw [Assembly.closeWithin_flatten closing _ assembly rfl]
        exact congrArg (Except.map Assembly.flatten) closes
      obtain ⟨nested', closesNested, above'⟩ := above.closeTag closes'
      refine ⟨nested', ?_, above', above'.labels_eq_nil ?_⟩
      · rw [List.foldlM_cons, FlatAssembly.step, closesNested]
        rfl
      · rw [Assembly.openComponents_flatten, noneOpen, List.map_nil]
  | @next tokens assembly after closed token stepped stillOpen later ih =>
      have stepped' : assembly.flatten.step token = .ok after.flatten := by
        rw [Assembly.step_flatten, stepped]
        rfl
      have isOpen' := Assembly.labels_flatten_ne_nil stillOpen
      have isApart' : ∀ name ∈ after.components.names, name ∉ base.components.names :=
        fun name isDeclared => isApart name (later.names_subset isDeclared)
      obtain ⟨middle, steppedNested, aboveMiddle, -⟩ :=
        (lockstep base).step ⟨above, isOpen⟩ stepped' ⟨isOpen', isApart'⟩
      obtain ⟨nested', run, above', noneOpen⟩ := ih aboveMiddle isOpen' isApart
      refine ⟨nested', ?_, above', noneOpen⟩
      rw [List.foldlM_cons, steppedNested]
      exact run

end Above

/-- A definition without text before it adds its components to those of the base, whatever is open there,
and leaves everything else as it is. -/
theorem exists_definition {base : FlatAssembly} (consistent : base.IsConsistent) {start : Position}
    {run : TextRun} {tokens : List Token} {closed : Assembly} (noText : run.text = "")
    (defines : Assembly.Defines start (.text run :: tokens) closed)
    (isApart : ∀ name ∈ closed.components.names, name ∉ base.components.names) :
    ∃ nested, tokens.foldlM step base = .ok nested ∧ Above base closed.flatten nested ∧
      closed.flatten.labels = [] := by
  let begun := (Assembly.initial start).addText run
  have nothing : begun.flatten = .initial start :=
    ((Assembly.initial start).addText_flatten run).symm.trans (addText_of_text_eq noText _)
  have above : Above base begun.flatten base := by
    rw [nothing]
    exact ⟨rfl, ⟨[], rfl, rfl⟩, by simp [labels, initial], fun _ => rfl,
      fun isDeclared => absurd isDeclared List.not_mem_nil,
      ⟨.inl, fun either => either.resolve_right List.not_mem_nil⟩, isConsistent_initial start,
      consistent⟩
  have opens {opening : OpeningTag} {body : Option RawBody} {name : String} {next : Assembly}
      (isComponent : opening.tag.componentName? = some name)
      (opened : begun.openTag opening body = .ok next) :
      begun.flatten.openComponent name opening = .ok next.flatten := by
    rw [← openTag_of_componentName? isComponent body]
    exact (begun.step_flatten (.opening opening body)).trans (congrArg (Except.map _) opened)
  cases defines with
  | @selfClosing _ opening body name _ isComponent isSelfClosing opened =>
      have opened := opens isComponent opened
      have isNew := isApart name (names_subset_openComponent opened List.mem_cons_self)
      obtain ⟨nested, openedNested, above'⟩ := above.openComponent opened isNew
      refine ⟨nested, ?_, above', ?_⟩
      · rw [List.foldlM_cons, step, openTag_of_componentName? isComponent, openedNested]
        rfl
      · obtain ⟨-, closes⟩ := eq_of_openComponent opened
        rw [closes, if_pos isSelfClosing, labels_pop, nothing]
        rfl
  | @closed _ opening body name tokens _ isComponent closes =>
      cases closes with
      | @next _ _ after _ _ opened isOpen later =>
          have openedFlat := opens isComponent opened
          have isDeclared := names_subset_openComponent openedFlat List.mem_cons_self
          obtain ⟨middle, openedNested, aboveMiddle⟩ :=
            above.openComponent openedFlat (isApart name (later.names_subset isDeclared))
          obtain ⟨nested, run, above', noneOpen⟩ :=
            Above.closesLast later aboveMiddle (Assembly.labels_flatten_ne_nil isOpen) isApart
          refine ⟨nested, ?_, above', noneOpen⟩
          rw [List.foldlM_cons, step, openTag_of_componentName? isComponent, openedNested]
          exact run

end FlatAssembly

end TemplateMarkup
