import TemplateMarkup.Proofs.Assembly.Lockstep

/-!
# Assemblies that look alike

Two assemblies look alike if the same is open in both and the same is visible in it, and if what is
visible of the declared components is the same.  The second one may know some components more.

They stay alike as long as the first one declares none of these, so what comes out in the end looks
alike too.
-/

namespace TemplateMarkup

structure OpenElement.Resembles (element other : OpenElement) : Prop where
  tag : other.tag = element.tag
  visible : other.visible = element.visible

structure OpenComponent.Resembles (component other : OpenComponent) : Prop where
  root : component.root.Resembles other.root
  rest : other = { component with root := other.root }

inductive Frame.Resembles : Frame → Frame → Prop where
  | element {opened other : OpenElement} (alike : opened.Resembles other) :
      Resembles (.element opened) (.element other)
  | component {name : String} {opened other : OpenComponent} (alike : opened.Resembles other) :
      Resembles (.component name opened) (.component name other)

section Parts

variable {added : List Visible} {change change' : OpenElement → OpenElement}

theorem OpenElement.Resembles.refl (element : OpenElement) : element.Resembles element := ⟨rfl, rfl⟩

theorem OpenComponent.Resembles.refl (component : OpenComponent) : component.Resembles component :=
  ⟨.refl _, rfl⟩

theorem Frame.Resembles.refl : ∀ frame : Frame, frame.Resembles frame
  | .element opened => .element (.refl opened)
  | .component _ opened => .component (.refl opened)

theorem OpenElement.Resembles.adds {element other : OpenElement} (alike : element.Resembles other)
    (adds : AddsVisible added change) (adds' : AddsVisible added change') :
    (change element).Resembles (change' other) where
  tag := by rw [adds.tag, adds'.tag, alike.tag]
  visible := by rw [adds.visible, adds'.visible, alike.visible]

theorem OpenElement.Resembles.visible_toNode {element other : OpenElement}
    (alike : element.Resembles other) :
    other.toElement.toNode.visible = element.toElement.toNode.visible := by
  show [Visible.element (other.tag.reword .unplaced) other.visible] =
    [Visible.element (element.tag.reword .unplaced) element.visible]
  rw [alike.tag, alike.visible]

theorem OpenComponent.Resembles.changeRoot {component other : OpenComponent}
    (alike : component.Resembles other) (adds : AddsVisible added change)
    (adds' : AddsVisible added change') :
    Resembles { component with root := change component.root }
      { other with root := change' other.root } where
  root := alike.root.adds adds adds'
  rest := by rw [alike.rest]

theorem OpenComponent.Resembles.changed {component other : OpenComponent}
    {change : OpenComponent → OpenComponent} (alike : component.Resembles other)
    (keepsRoot : KeepsRoot change) : (change component).Resembles (change other) := by
  have same : (change component).root = component.root := by
    have kept : change component = { change component with root := component.root } :=
      keepsRoot component component.root
    rw [kept]
  have other' : change other = { change component with root := other.root } := by
    rw [← keepsRoot, ← alike.rest]
  rw [other']
  exact ⟨same ▸ alike.root, rfl⟩

theorem OpenComponent.Resembles.visible_toComponent {component other : OpenComponent}
    (alike : component.Resembles other) :
    other.toComponent.visible = component.toComponent.visible := by
  show VisibleComponent.mk (other.root.tag.reword .unplaced) other.root.visible _ _ _ =
    VisibleComponent.mk (component.root.tag.reword .unplaced) component.root.visible _ _ _
  rw [alike.root.tag, alike.root.visible, alike.rest]
  rfl

theorem Frame.Resembles.mapHolder {frame other : Frame} (alike : frame.Resembles other)
    (adds : AddsVisible added change) (adds' : AddsVisible added change') :
    (frame.mapHolder change).Resembles (other.mapHolder change') := by
  cases alike with
  | element alike => exact .element (alike.adds adds adds')
  | component alike => exact .component (alike.changeRoot adds adds')

theorem Frame.Resembles.label_eq {frame other : Frame} (alike : frame.Resembles other) :
    other.label = frame.label := by
  cases alike with
  | element alike => rw [label, alike.tag, label]
  | component alike => rfl

/-- Whether there is a component to change can be told from either stack. -/
theorem Frame.forall₂_modifyComponent? {change : OpenComponent → OpenComponent}
    (keepsRoot : KeepsRoot change) {frames others : List Frame}
    (alike : List.Forall₂ Resembles frames others) :
    Option.Rel (List.Forall₂ Resembles) (modifyComponent? change frames)
      (modifyComponent? change others) := by
  induction alike with
  | nil => exact .none
  | cons first rest ih =>
      cases first with
      | component opened => exact .some (.cons (.component (opened.changed keepsRoot)) rest)
      | element opened =>
          rw [modifyComponent?, modifyComponent?]
          generalize modifyComponent? change _ = changed at ih ⊢
          generalize modifyComponent? change _ = changed' at ih ⊢
          cases ih with
          | none => exact .none
          | some changed => exact .some (.cons (.element opened) changed)

end Parts

namespace FlatAssembly

/-- What is visible of a component that has been declared, once it has a value. -/
def visible? (flat : FlatAssembly) (name : String) : Option (Option VisibleComponent) :=
  (flat.components.find? name).map (Option.map Component.visible)

/-- The second assembly looks like the first one but for some components that it knows besides. -/
structure Resembles (added : List String) (flat other : FlatAssembly) : Prop where
  main : flat.main.Resembles other.main
  frames : List.Forall₂ Frame.Resembles flat.frames other.frames
  components : ∀ {name}, name ∉ added → other.visible? name = flat.visible? name
  added : ∀ {name}, name ∈ added → name ∈ other.components.names
  consistent : flat.IsConsistent
  consistent' : other.IsConsistent

variable {added : List String} {flat other next : FlatAssembly}

theorem mem_names_iff_visible? {name : String} :
    name ∈ flat.components.names ↔ flat.visible? name ≠ none := by
  rw [visible?, Ne, Option.map_eq_none_iff, NameMap.find?_eq_none_iff, not_not]

namespace Resembles

theorem refl (consistent : flat.IsConsistent) : Resembles [] flat flat :=
  ⟨.refl _, List.forall₂_same.mpr fun frame _ => .refl frame, fun _ => rfl, nofun, consistent,
    consistent⟩

theorem labels_eq (alike : Resembles added flat other) : other.labels = flat.labels := by
  have frames := alike.frames
  unfold labels
  generalize flat.frames = frames, other.frames = frames' at frames
  induction frames with
  | nil => rfl
  | cons first _ ih => rw [List.map_cons, List.map_cons, first.label_eq, ih]

/-- A component that is not one of the added ones is known to both or to none. -/
theorem mem_names_iff (alike : Resembles added flat other) {name : String} (notAdded : name ∉ added) :
    name ∈ other.components.names ↔ name ∈ flat.components.names := by
  rw [mem_names_iff_visible?, mem_names_iff_visible?, alike.components notAdded]

/-- The names are those of the first assembly and the added ones. -/
theorem mem_names_iff_or (alike : Resembles added flat other)
    {name : String} : name ∈ other.components.names ↔ name ∈ flat.components.names ∨ name ∈ added := by
  by_cases isAdded : name ∈ added
  · exact ⟨fun _ => .inr isAdded, fun _ => alike.added isAdded⟩
  · rw [alike.mem_names_iff isAdded]
    exact ⟨.inl, fun either => either.resolve_right isAdded⟩

theorem mapHolder {visible : List Visible} {change change' : OpenElement → OpenElement}
    (alike : Resembles added flat other) (adds : AddsVisible visible change)
    (adds' : AddsVisible visible change') :
    Resembles added (flat.mapHolder change) (other.mapHolder change') := by
  have consistent := alike.consistent.congr (sameOutline_mapHolder adds.tag flat)
  have consistent' := alike.consistent'.congr (sameOutline_mapHolder adds'.tag other)
  obtain ⟨main, frames, components, isAdded, -, -⟩ := alike
  rcases flat with ⟨root, open_, declared, buckets, imports⟩
  rcases other with ⟨root', open_', declared', buckets', imports'⟩
  cases frames with
  | nil => exact ⟨main.changeRoot adds adds', .nil, components, isAdded, consistent, consistent'⟩
  | cons first below =>
      exact ⟨main, .cons (first.mapHolder adds adds') below, components, isAdded, consistent,
        consistent'⟩

theorem modifyComponent {change : OpenComponent → OpenComponent}
    (alike : Resembles added flat other) (keepsRoot : KeepsRoot change) :
    Resembles added (flat.modifyComponent change) (other.modifyComponent change) := by
  have consistent := alike.consistent.congr (sameOutline_modifyComponent flat change)
  have consistent' := alike.consistent'.congr (sameOutline_modifyComponent other change)
  have frames := Frame.forall₂_modifyComponent? keepsRoot alike.frames
  unfold FlatAssembly.modifyComponent at *
  generalize Frame.modifyComponent? change flat.frames = changed at *
  generalize Frame.modifyComponent? change other.frames = changed' at *
  cases frames with
  | none =>
      exact ⟨alike.main.changed keepsRoot, alike.frames, alike.components, alike.added, consistent,
        consistent'⟩
  | some frames =>
      exact ⟨alike.main, frames, alike.components, alike.added, consistent, consistent'⟩

/-- The same is put down under the same name. -/
theorem insert {name : String} {value value' : Option Component} {frames frames' : List Frame}
    (alike : Resembles added flat other)
    (same : value'.map Component.visible = value.map Component.visible)
    (areAlike : List.Forall₂ Frame.Resembles frames frames')
    (consistent : IsConsistent { flat with frames, components := flat.components.insert name value })
    (consistent' : IsConsistent { other with
      frames := frames', components := other.components.insert name value' }) :
    Resembles added { flat with frames, components := flat.components.insert name value }
      { other with frames := frames', components := other.components.insert name value' } where
  main := alike.main
  frames := areAlike
  components {sought} notAdded := by
    by_cases isThis : sought = name
    · subst isThis
      simp only [visible?, NameMap.find?_insert_self, Option.map_some, same]
    · simp only [visible?, NameMap.find?_insert_of_ne _ _ isThis]
      exact alike.components notAdded
  added isAdded := NameMap.mem_names_insert.mpr (.inr (alike.added isAdded))
  consistent := consistent
  consistent' := consistent'

theorem pop (alike : Resembles added flat other) : Resembles added flat.pop other.pop := by
  have consistent := alike.consistent.pop.1
  have consistent' := alike.consistent'.pop.1
  have frames := alike.frames
  cases isTop : flat.frames with
  | nil =>
      rw [isTop] at frames
      rw [pop_of_nil isTop, pop_of_nil (List.forall₂_nil_left_iff.mp frames)]
      exact alike
  | cons frame below =>
      rw [isTop] at frames
      obtain ⟨frame', below', first, rest, isTop'⟩ := List.forall₂_cons_left_iff.mp frames
      cases first with
      | @element opened opened' element =>
          rw [pop_of_element isTop] at consistent ⊢
          rw [pop_of_element isTop'] at consistent' ⊢
          have alike : Resembles added { flat with frames := below } { other with frames := below' } :=
            ⟨alike.main, rest, alike.components, alike.added,
              consistent.congr (sameOutline_mapHolder (OpenElement.tag_append _) _).symm,
              consistent'.congr (sameOutline_mapHolder (OpenElement.tag_append _) _).symm⟩
          exact alike.mapHolder (.append _) (element.visible_toNode ▸ .append _)
      | component opened =>
          rw [pop_of_component isTop] at consistent ⊢
          rw [pop_of_component isTop'] at consistent' ⊢
          exact alike.insert (congrArg some opened.visible_toComponent) rest consistent consistent'

theorem popMany (alike : Resembles added flat other) (count : Nat) :
    Resembles added (FlatAssembly.popMany count flat) (FlatAssembly.popMany count other) := by
  induction count generalizing flat other with
  | zero => exact alike
  | succ count ih => exact ih alike.pop

theorem closeTag {closing : ClosingTag} (alike : Resembles added flat other)
    (closes : flat.closeTag closing = .ok next) :
    ∃ next', other.closeTag closing = .ok next' ∧ Resembles added next next' := by
  obtain ⟨inside, outside, names, isFirst, rfl⟩ := exists_openNames_of_closeTag closes
  have names' : other.openNames = inside ++ closing.name :: outside := by
    rw [openNames_eq_labels, alike.labels_eq, ← openNames_eq_labels, names]
  exact ⟨_, closeTag_of_openNames names' isFirst, alike.popMany _⟩

theorem declare (alike : Resembles added flat other) (name : String) (tag : Tag) :
    Resembles added (flat.declare name tag) (other.declare name tag) :=
  alike.insert rfl (.cons (.refl _) alike.frames) (alike.consistent.declare name tag)
    (alike.consistent'.declare name tag)

theorem openComponent {name : String} {opening : OpeningTag} (alike : Resembles added flat other)
    (opened : flat.openComponent name opening = .ok next) (notAdded : name ∉ added) :
    ∃ next', other.openComponent name opening = .ok next' ∧ Resembles added next next' := by
  obtain ⟨isNew, rfl⟩ := eq_of_openComponent opened
  have isNew' : name ∉ other.components.names := fun isDeclared =>
    isNew ((alike.mem_names_iff notAdded).mp isDeclared)
  refine ⟨_, openComponent_of_not_mem isNew' opening, ?_⟩
  split
  · exact (alike.declare name opening.tag).pop
  · exact alike.declare name opening.tag

/-- They stay alike as long as the first assembly declares none of the added components. -/
theorem lockstep (added : List String) :
    Lockstep (fun flat => ∀ name ∈ flat.components.names, name ∉ added) (Resembles added) where
  mapHolder alike adds adds' := alike.mapHolder adds adds'
  modifyComponent alike keepsRoot := alike.modifyComponent keepsRoot
  push tag alike := ⟨alike.main, .cons (.element (.refl _)) alike.frames, alike.components,
    alike.added, alike.consistent.push tag, alike.consistent'.push tag⟩
  collect _ _ _ _ alike := ⟨alike.main, alike.frames, alike.components, alike.added,
    alike.consistent.congr ⟨rfl, rfl⟩, alike.consistent'.congr ⟨rfl, rfl⟩⟩
  openComponent alike opened noneAdded :=
    alike.openComponent opened (noneAdded _ (names_subset_openComponent opened List.mem_cons_self))
  closeTag alike closes _ := alike.closeTag closes

theorem foldlM (alike : Resembles added flat other) {tokens : List Token}
    (run : tokens.foldlM step flat = .ok next)
    (noneAdded : ∀ name ∈ next.components.names, name ∉ added) :
    ∃ next', tokens.foldlM step other = .ok next' ∧ Resembles added next next' := by
  refine (lockstep added).foldlM ?_ alike run noneAdded
  intro flat next token stepped noneAdded name isDeclared
  exact noneAdded name (names_subset_step stepped isDeclared)

end Resembles

theorem IsConsistent.foldlM (consistent : flat.IsConsistent) {tokens : List Token}
    (run : tokens.foldlM step flat = .ok next) : next.IsConsistent := by
  obtain ⟨_, -, alike⟩ := (Resembles.refl consistent).foldlM run fun _ _ => List.not_mem_nil
  exact alike.consistent

theorem inlineComponent?_finish (flat : FlatAssembly) (sourcePath : Option String) (name : String) :
    (flat.finish sourcePath).inlineComponent? name =
      ((popMany flat.frames.length flat).components.find? name).bind id :=
  NameMap.find?_filterMap _ _ _

/-- Every component that has been declared has a value in the end. -/
theorem IsConsistent.mem_names_finish (consistent : flat.IsConsistent) (sourcePath : Option String)
    (name : String) :
    name ∈ (flat.finish sourcePath).inlineComponents.names ↔ name ∈ flat.components.names := by
  obtain ⟨closed, sameNames⟩ := consistent.popMany flat.frames.length
  have noneOpen : (FlatAssembly.popMany flat.frames.length flat).openComponents = [] := by
    rw [openComponents, labels_popMany, labels, List.drop_eq_nil_of_le (List.length_map _).le]
    rfl
  rw [← sameNames]
  constructor
  · intro isComponent
    obtain ⟨component, found⟩ := NameMap.exists_find?_of_mem isComponent
    have found := (flat.inlineComponent?_finish sourcePath name).symm.trans found
    obtain ⟨value, found, -⟩ := Option.bind_eq_some_iff.mp found
    exact NameMap.mem_names_of_find? found
  · intro isDeclared
    obtain ⟨component, found⟩ := closed.exists_find?_of_mem noneOpen isDeclared
    have found : (flat.finish sourcePath).inlineComponent? name = some component := by
      rw [inlineComponent?_finish, found]
      rfl
    exact NameMap.mem_names_of_find? found

namespace Resembles

theorem finish (alike : Resembles added flat other) (sourcePath : Option String) :
    (other.finish sourcePath).main.visible = (flat.finish sourcePath).main.visible ∧
      (∀ name ∉ added, ((other.finish sourcePath).inlineComponent? name).map Component.visible =
        ((flat.finish sourcePath).inlineComponent? name).map Component.visible) ∧
      ∀ name, name ∈ (other.finish sourcePath).inlineComponents.names ↔
        name ∈ (flat.finish sourcePath).inlineComponents.names ∨ name ∈ added := by
  have closed := alike.popMany flat.frames.length
  have asMany : other.frames.length = flat.frames.length := alike.frames.length_eq.symm
  refine ⟨?_, ?_, ?_⟩
  · show (FlatAssembly.popMany other.frames.length other).main.toComponent.visible = _
    rw [asMany]
    exact closed.main.visible_toComponent
  · intro name notAdded
    have same := closed.components notAdded
    rw [inlineComponent?_finish, inlineComponent?_finish, asMany]
    unfold visible? at same
    generalize (FlatAssembly.popMany _ other).components.find? name = value' at same ⊢
    generalize (FlatAssembly.popMany _ flat).components.find? name = value at same ⊢
    have valued (value : Option (Option Component)) : (value.bind id).map Component.visible =
        (value.map (Option.map Component.visible)).bind id := by
      cases value <;> rfl
    rw [valued, valued, same]
  · intro name
    rw [alike.consistent'.mem_names_finish, alike.consistent.mem_names_finish]
    exact alike.mem_names_iff_or

end Resembles

end FlatAssembly

end TemplateMarkup
