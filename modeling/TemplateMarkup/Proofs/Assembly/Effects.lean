import TemplateMarkup.Proofs.Assembly.OpenNames
import TemplateMarkup.Proofs.Document.Lookup
import TemplateMarkup.Proofs.Document.Visible

/-!
# What a step changes

The steps on the flat stack, by what they do to it.  A text or a closed node adds something at the end
of the innermost open node.  What a text adds depends on its surroundings, but only in its white space.
Of what is open, only the labels decide how it is closed.  A component that has been declared stays
declared, and it has a value as soon as it is not open any more.
-/

namespace TemplateMarkup

/-- What is visible of the children read so far. -/
def OpenElement.visible (element : OpenElement) : List Visible :=
  Node.visibleAll element.latest.reverse

/-- Nothing else about an element changes than that something visible is added at its end. -/
structure AddsVisible (added : List Visible) (change : OpenElement → OpenElement) : Prop where
  tag : ∀ element, (change element).tag = element.tag
  visible : ∀ element, (change element).visible = element.visible ++ added

namespace AddsVisible

variable {added later : List Visible} {change change' : OpenElement → OpenElement}

theorem nothing : AddsVisible [] id :=
  ⟨fun _ => rfl, fun element => (List.append_nil element.visible).symm⟩

theorem append (node : Node) : AddsVisible node.visible (·.append node) where
  tag _ := rfl
  visible element := by
    show Node.visibleAll (node :: element.latest).reverse = _
    rw [List.reverse_cons, Node.visibleAll_append, Node.visibleAll, Node.visibleAll,
      List.append_nil]
    rfl

theorem comp (first : AddsVisible added change) (second : AddsVisible later change') :
    AddsVisible (added ++ later) (change' ∘ change) where
  tag element := (second.tag _).trans (first.tag element)
  visible element := by
    rw [Function.comp_apply, second.visible, first.visible, List.append_assoc]

end AddsVisible

/-- The change does not look at the tree of the component. -/
def KeepsRoot (change : OpenComponent → OpenComponent) : Prop :=
  ∀ component root, change { component with root } = { change component with root }

theorem OpenComponent.keepsRoot_recordSlot (tag : Tag) : KeepsRoot (·.recordSlot tag) := by
  intro component root
  unfold recordSlot
  cases tag.nonemptyValue? "name" <;> rfl

namespace FlatAssembly

theorem mapHolder_id (flat : FlatAssembly) : flat.mapHolder id = flat := by
  rcases flat with ⟨main, frames, components, buckets, imports⟩
  rcases frames with _ | ⟨_ | _, below⟩ <;> rfl

theorem mapHolder_comp (flat : FlatAssembly) (change change' : OpenElement → OpenElement) :
    flat.mapHolder (change' ∘ change) = (flat.mapHolder change).mapHolder change' := by
  rcases flat with ⟨main, frames, components, buckets, imports⟩
  rcases frames with _ | ⟨_ | _, below⟩ <;> rfl

/-- A text run adds its visible characters, whatever becomes of its white space. -/
theorem exists_addText_eq (flat : FlatAssembly) (run : TextRun) :
    ∃ change, AddsVisible (visibleText run.text.toList) change ∧
      flat.addText run = flat.mapHolder change := by
  obtain ⟨text, isText, added⟩ := flat.addText_cases run
  have sameVisible : visibleText run.text.toList = visibleText text.toList := by
    rcases isText with rfl | ⟨policy, rfl⟩
    · rfl
    · rw [String.toList_ofList, policy.visibleText_apply]
  rw [added, sameVisible]
  split
  · next isEmpty =>
      refine ⟨id, ?_, flat.mapHolder_id.symm⟩
      rw [String.isEmpty_iff.mp isEmpty]
      exact .nothing
  · exact ⟨_, .append (.text text run.position), flat.append_eq_mapHolder _⟩

/-- Open a component that has not been declared yet. -/
def declare (flat : FlatAssembly) (name : String) (tag : Tag) : FlatAssembly :=
  { flat with
    frames := .component name (.ofRoot tag) :: flat.frames
    components := flat.components.insert name none }

theorem openComponent_of_not_mem {flat : FlatAssembly} {name : String}
    (isNew : name ∉ flat.components.names) (opening : OpeningTag) :
    flat.openComponent name opening = .ok (if opening.isSelfClosing
      then (flat.declare name opening.tag).pop else flat.declare name opening.tag) :=
  if_neg fun isDeclared => isNew (NameMap.contains_iff.mp isDeclared)

/-- A component can be opened only under a new name. -/
theorem eq_of_openComponent {flat next : FlatAssembly} {name : String} {opening : OpeningTag}
    (opened : flat.openComponent name opening = .ok next) :
    name ∉ flat.components.names ∧ next = if opening.isSelfClosing
      then (flat.declare name opening.tag).pop else flat.declare name opening.tag := by
  by_cases isDeclared : name ∈ flat.components.names
  · rw [openComponent, if_pos (NameMap.contains_iff.mpr isDeclared)] at opened
    cases opened
  · rw [openComponent_of_not_mem isDeclared] at opened
    exact ⟨isDeclared, (Except.ok.inj opened).symm⟩

theorem names_subset_pop (flat : FlatAssembly) :
    flat.components.names ⊆ flat.pop.components.names := by
  cases isTop : flat.frames with
  | nil =>
      rw [pop_of_nil isTop]
      exact List.Subset.refl _
  | cons frame below =>
      cases frame with
      | element opened =>
          rw [pop_of_element isTop, components_mapHolder]
          exact List.Subset.refl _
      | component name opened =>
          rw [pop_of_component isTop]
          exact fun _ isDeclared => NameMap.mem_names_insert.mpr (.inr isDeclared)

theorem names_subset_popMany (count : Nat) (flat : FlatAssembly) :
    flat.components.names ⊆ (popMany count flat).components.names := by
  induction count generalizing flat with
  | zero => exact List.Subset.refl _
  | succ count ih => exact List.Subset.trans flat.names_subset_pop (ih flat.pop)

/-- What has been opened is declared from then on. -/
theorem names_subset_openComponent {flat next : FlatAssembly} {name : String} {opening : OpeningTag}
    (opened : flat.openComponent name opening = .ok next) :
    name :: flat.components.names ⊆ next.components.names := by
  obtain ⟨-, rfl⟩ := eq_of_openComponent opened
  have declared : name :: flat.components.names ⊆
      (flat.declare name opening.tag).components.names :=
    fun _ member => NameMap.mem_names_insert.mpr (List.mem_cons.mp member)
  split
  · exact List.Subset.trans declared (names_subset_pop _)
  · exact declared

/-- A component that has been declared stays declared. -/
theorem names_subset_step {flat next : FlatAssembly} {token : Token}
    (stepped : flat.step token = .ok next) :
    flat.components.names ⊆ next.components.names := by
  cases token with
  | text run =>
      cases stepped
      rw [(flat.sameOutline_addText run).components]
      exact List.Subset.refl _
  | closing closing =>
      have closes : flat.closeTag closing = .ok next := stepped
      obtain ⟨inside, outside, -, -, rfl⟩ := exists_openNames_of_closeTag closes
      exact names_subset_popMany _ _
  | opening opening body =>
      have opens : flat.openTag opening body = .ok next := stepped
      rcases openTag_outline opens with ⟨name, -, opened⟩ | same | ⟨-, same⟩
      · exact (List.cons_subset.mp (names_subset_openComponent opened)).2
      · rw [same.components]
        exact List.Subset.refl _
      · rw [same.components]
        exact List.Subset.refl _

theorem names_subset_foldlM {flat next : FlatAssembly} {tokens : List Token}
    (run : tokens.foldlM step flat = .ok next) : flat.components.names ⊆ next.components.names :=
  holds_of_foldlM (flat.components.names ⊆ ·.components.names) (List.Subset.refl _)
    (fun _ _ _ _ stepped declared => List.Subset.trans declared (names_subset_step stepped)) run

/-- Nothing has been put down under the name of a component exactly as long as it is open. -/
structure IsConsistent (flat : FlatAssembly) : Prop where
  isOpen : ∀ {name}, flat.components.find? name = some none → name ∈ flat.openComponents
  isDeclared : ∀ {name}, name ∈ flat.openComponents → name ∈ flat.components.names

theorem isConsistent_initial (start : Position) : (initial start).IsConsistent :=
  ⟨nofun, nofun⟩

namespace IsConsistent

variable {flat next : FlatAssembly}

theorem congr (consistent : flat.IsConsistent) (same : SameOutline flat next) :
    next.IsConsistent where
  isOpen found := by
    rw [same.openComponents_eq]
    exact consistent.isOpen (same.components ▸ found)
  isDeclared member := by
    rw [same.openComponents_eq] at member
    exact same.components ▸ consistent.isDeclared member

/-- Closing a node closes at most one component, which gets its value then. -/
theorem pop (consistent : flat.IsConsistent) :
    flat.pop.IsConsistent ∧
      ∀ name, name ∈ flat.pop.components.names ↔ name ∈ flat.components.names := by
  cases isTop : flat.frames with
  | nil =>
      rw [pop_of_nil isTop]
      exact ⟨consistent, fun _ => Iff.rfl⟩
  | cons frame below =>
      have isOpen : flat.openComponents = (frame.label :: below.map Frame.label).filterMap Prod.snd := by
        rw [openComponents, labels, isTop, List.map_cons]
      cases frame with
      | element opened =>
          have sameComponents : flat.pop.components = flat.components := by
            rw [pop_of_element isTop, components_mapHolder]
          have sameOpen : flat.pop.openComponents = flat.openComponents := by
            rw [isOpen, openComponents, labels_pop, labels, isTop]
            rfl
          refine ⟨⟨fun found => ?_, fun member => ?_⟩, fun name => by rw [sameComponents]⟩
          · exact sameOpen ▸ consistent.isOpen (sameComponents ▸ found)
          · exact sameComponents ▸ consistent.isDeclared (sameOpen ▸ member)
      | component closed opened =>
          have isOpen : flat.openComponents = closed :: flat.pop.openComponents := by
            rw [isOpen, openComponents, labels_pop, labels, isTop]
            rfl
          have popped : flat.pop.components =
              flat.components.insert closed (some opened.toComponent) := by
            rw [pop_of_component isTop]
          have isDeclared : closed ∈ flat.components.names :=
            consistent.isDeclared (isOpen ▸ List.mem_cons_self ..)
          have sameNames (name : String) :
              name ∈ flat.pop.components.names ↔ name ∈ flat.components.names := by
            rw [popped, NameMap.mem_names_insert]
            exact ⟨fun either => either.elim (fun same => same ▸ isDeclared) id, .inr⟩
          refine ⟨⟨fun {name} found => ?_, fun {name} member => ?_⟩, sameNames⟩
          · by_cases same : name = closed
            · rw [popped, same, NameMap.find?_insert_self] at found
              cases found
            · rw [popped, NameMap.find?_insert_of_ne _ _ same] at found
              exact (List.mem_cons.mp (isOpen ▸ consistent.isOpen found)).resolve_left same
          · rw [sameNames]
            exact consistent.isDeclared (isOpen ▸ List.mem_cons_of_mem _ member)

theorem popMany (consistent : flat.IsConsistent) (count : Nat) :
    (FlatAssembly.popMany count flat).IsConsistent ∧
      ∀ name, name ∈ (FlatAssembly.popMany count flat).components.names ↔
        name ∈ flat.components.names := by
  induction count generalizing flat with
  | zero => exact ⟨consistent, fun _ => Iff.rfl⟩
  | succ count ih =>
      obtain ⟨popped, sameNames⟩ := consistent.pop
      obtain ⟨later, sameLater⟩ := ih popped
      exact ⟨later, fun name => (sameLater name).trans (sameNames name)⟩

theorem push (consistent : flat.IsConsistent) (tag : Tag) :
    IsConsistent { flat with frames := .element (.ofTag tag) :: flat.frames } :=
  ⟨consistent.isOpen, consistent.isDeclared⟩

theorem declare (consistent : flat.IsConsistent) (name : String) (tag : Tag) :
    (flat.declare name tag).IsConsistent where
  isOpen {other} found := by
    by_cases same : other = name
    · exact same ▸ List.mem_cons_self ..
    · rw [FlatAssembly.declare, NameMap.find?_insert_of_ne _ _ same] at found
      exact List.mem_cons_of_mem _ (consistent.isOpen found)
  isDeclared {other} member := by
    rw [FlatAssembly.declare, NameMap.mem_names_insert]
    exact (List.mem_cons.mp member).imp_right consistent.isDeclared

/-- When nothing is open, every component has its value. -/
theorem exists_find?_of_mem (consistent : flat.IsConsistent) (noneOpen : flat.openComponents = [])
    {name : String} (isDeclared : name ∈ flat.components.names) :
    ∃ component, flat.components.find? name = some (some component) := by
  obtain ⟨value, found⟩ := NameMap.exists_find?_of_mem isDeclared
  cases value with
  | some component => exact ⟨component, found⟩
  | none =>
      have isOpen := consistent.isOpen found
      rw [noneOpen] at isOpen
      cases isOpen

end IsConsistent

end FlatAssembly

end TemplateMarkup
