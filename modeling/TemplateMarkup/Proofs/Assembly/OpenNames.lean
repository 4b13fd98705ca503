import TemplateMarkup.Proofs.Assembly.FlatStack

/-!
# The names of what is open

What is open at some point of a source, as a list of names.  On the flat stack every step can be
described by what it does to this list.  Text and closed elements leave it alone, an opening tag adds
its own name or nothing, and a closing tag drops everything up to the first name that is its own.

A component that is open has a name besides that of its tag.  The labels of what is open hold both
names, and most steps change nothing about the labels or about what has been declared.
-/

namespace TemplateMarkup

theorem OpenElement.tag_append (child : Node) (element : OpenElement) :
    (element.append child).tag = element.tag :=
  rfl

namespace Frame

def mapHolder (change : OpenElement → OpenElement) : Frame → Frame
  | element opened => element (change opened)
  | component name opened => component name { opened with root := change opened.root }

/-- What can be told of a frame from outside: the name of its tag, and of its component if it has one. -/
def label : Frame → String × Option String
  | element opened => (opened.tag.name, none)
  | component name _ => ("template", some name)

theorem label_mapHolder {change : OpenElement → OpenElement}
    (keeps : ∀ element, (change element).tag = element.tag) (frame : Frame) :
    (frame.mapHolder change).label = frame.label := by
  cases frame with
  | element opened => rw [mapHolder, label, keeps, label]
  | component => rfl

theorem map_label_modifyComponent? {change : OpenComponent → OpenComponent}
    {frames changed : List Frame} (modified : modifyComponent? change frames = some changed) :
    changed.map label = frames.map label := by
  induction frames generalizing changed with
  | nil => cases modified
  | cons frame below ih =>
      cases frame with
      | element opened =>
          obtain ⟨rest, isRest, rfl⟩ := Option.map_eq_some_iff.mp modified
          rw [List.map_cons, List.map_cons, ih isRest]
      | component name opened =>
          cases modified
          rfl

end Frame

namespace FlatAssembly

/-- The names of everything that is open, innermost first. -/
def openNames (flat : FlatAssembly) : List String :=
  flat.frames.map Frame.tagName

@[simp]
theorem length_openNames (flat : FlatAssembly) : flat.openNames.length = flat.frames.length :=
  List.length_map _

/-- What can be told of everything that is open, innermost first. -/
def labels (flat : FlatAssembly) : List (String × Option String) :=
  flat.frames.map Frame.label

/-- The names of the open inline components, innermost first. -/
def openComponents (flat : FlatAssembly) : List String :=
  flat.labels.filterMap Prod.snd

theorem openNames_eq_labels (flat : FlatAssembly) : flat.openNames = flat.labels.map Prod.fst := by
  rw [openNames, labels, List.map_map]
  exact List.map_congr_left fun frame _ => by cases frame <;> rfl

/-- Change the innermost open node. -/
def mapHolder (flat : FlatAssembly) (change : OpenElement → OpenElement) : FlatAssembly :=
  match flat.frames with
  | [] => { flat with main := { flat.main with root := change flat.main.root } }
  | frame :: below => { flat with frames := frame.mapHolder change :: below }

theorem append_eq_mapHolder (flat : FlatAssembly) (child : Node) :
    flat.append child = flat.mapHolder (·.append child) := by
  unfold append mapHolder
  rcases flat.frames with _ | ⟨_ | _, below⟩ <;> rfl

theorem labels_mapHolder {change : OpenElement → OpenElement}
    (keeps : ∀ element, (change element).tag = element.tag) (flat : FlatAssembly) :
    (flat.mapHolder change).labels = flat.labels := by
  unfold mapHolder labels
  cases flat.frames with
  | nil => rfl
  | cons frame below => rw [List.map_cons, frame.label_mapHolder keeps, List.map_cons]

@[simp]
theorem labels_modifyComponent (flat : FlatAssembly) (change : OpenComponent → OpenComponent) :
    (flat.modifyComponent change).labels = flat.labels := by
  unfold modifyComponent labels
  cases modified : Frame.modifyComponent? change flat.frames with
  | none => rfl
  | some frames => exact Frame.map_label_modifyComponent? modified

@[simp]
theorem components_mapHolder (flat : FlatAssembly) (change : OpenElement → OpenElement) :
    (flat.mapHolder change).components = flat.components := by
  unfold mapHolder
  split <;> rfl

@[simp]
theorem components_modifyComponent (flat : FlatAssembly) (change : OpenComponent → OpenComponent) :
    (flat.modifyComponent change).components = flat.components := by
  unfold modifyComponent
  split <;> rfl

/-- The same is open, with the same labels, and the same components are declared. -/
structure SameOutline (flat next : FlatAssembly) : Prop where
  labels : next.labels = flat.labels
  components : next.components = flat.components

namespace SameOutline

variable {flat middle next : FlatAssembly}

theorem refl (flat : FlatAssembly) : SameOutline flat flat := ⟨rfl, rfl⟩

theorem symm (same : SameOutline flat next) : SameOutline next flat :=
  ⟨same.labels.symm, same.components.symm⟩

theorem trans (first : SameOutline flat middle) (later : SameOutline middle next) :
    SameOutline flat next :=
  ⟨later.labels.trans first.labels, later.components.trans first.components⟩

theorem openNames_eq (same : SameOutline flat next) : next.openNames = flat.openNames := by
  rw [openNames_eq_labels, openNames_eq_labels, same.labels]

theorem openComponents_eq (same : SameOutline flat next) :
    next.openComponents = flat.openComponents := by
  rw [openComponents, openComponents, same.labels]

/-- The same element is opened. -/
theorem push (same : SameOutline flat next) (tag : Tag) :
    SameOutline { flat with frames := .element (.ofTag tag) :: flat.frames }
      { next with frames := .element (.ofTag tag) :: next.frames } :=
  ⟨congrArg (_ :: ·) same.labels, same.components⟩

end SameOutline

theorem sameOutline_mapHolder {change : OpenElement → OpenElement}
    (keeps : ∀ element, (change element).tag = element.tag) (flat : FlatAssembly) :
    SameOutline flat (flat.mapHolder change) :=
  ⟨labels_mapHolder keeps flat, components_mapHolder flat change⟩

theorem sameOutline_append (flat : FlatAssembly) (child : Node) :
    SameOutline flat (flat.append child) := by
  rw [append_eq_mapHolder]
  exact sameOutline_mapHolder (OpenElement.tag_append child) flat

theorem sameOutline_modifyComponent (flat : FlatAssembly) (change : OpenComponent → OpenComponent) :
    SameOutline flat (flat.modifyComponent change) :=
  ⟨labels_modifyComponent flat change, components_modifyComponent flat change⟩

theorem pop_of_nil {flat : FlatAssembly} (noneOpen : flat.frames = []) : flat.pop = flat := by
  rw [pop, noneOpen]

theorem pop_of_element {flat : FlatAssembly} {opened : OpenElement} {below : List Frame}
    (isTop : flat.frames = .element opened :: below) :
    flat.pop = { flat with frames := below }.mapHolder (·.append opened.toElement.toNode) := by
  rw [pop, isTop]
  exact append_eq_mapHolder _ _

theorem pop_of_component {flat : FlatAssembly} {name : String} {opened : OpenComponent}
    {below : List Frame} (isTop : flat.frames = .component name opened :: below) :
    flat.pop = { flat with
      frames := below
      components := flat.components.insert name (some opened.toComponent) } := by
  rw [pop, isTop]

theorem labels_pop (flat : FlatAssembly) : flat.pop.labels = flat.labels.tail := by
  cases isTop : flat.frames with
  | nil =>
      rw [pop_of_nil isTop, labels, isTop]
      rfl
  | cons frame below =>
      cases frame with
      | element opened =>
          rw [pop_of_element isTop, labels_mapHolder (OpenElement.tag_append _), labels, labels,
            isTop]
          rfl
      | component name opened =>
          rw [pop_of_component isTop, labels, labels, isTop]
          rfl

theorem labels_popMany (count : Nat) (flat : FlatAssembly) :
    (popMany count flat).labels = flat.labels.drop count := by
  induction count generalizing flat with
  | zero => rfl
  | succ count ih => rw [popMany, ih, labels_pop, List.drop_tail]

@[simp]
theorem openNames_popMany (count : Nat) (flat : FlatAssembly) :
    (popMany count flat).openNames = flat.openNames.drop count := by
  rw [openNames_eq_labels, labels_popMany, List.map_drop, ← openNames_eq_labels]

@[simp]
theorem openNames_pop (flat : FlatAssembly) : flat.pop.openNames = flat.openNames.tail := by
  rw [openNames_eq_labels, labels_pop, List.map_tail, ← openNames_eq_labels]

/-- A text run adds its text, as it is or with its white space changed by some policy, or nothing. -/
theorem addText_cases (flat : FlatAssembly) (run : TextRun) :
    ∃ text, (text = run.text ∨ ∃ policy : WhitespacePolicy,
        text = String.ofList (policy.apply run.text.toList)) ∧
      flat.addText run = if text.isEmpty then flat else flat.append (.text text run.position) := by
  refine ⟨_, ?_, rfl⟩
  split
  · exact .inl rfl
  · exact .inr ⟨_, rfl⟩

/-- Nothing remains of an empty run. -/
theorem addText_of_text_eq {run : TextRun} (noText : run.text = "") (flat : FlatAssembly) :
    flat.addText run = flat := by
  obtain ⟨text, isText, added⟩ := flat.addText_cases run
  have nothing : text.isEmpty := by
    rw [noText] at isText
    rcases isText with rfl | ⟨policy, rfl⟩
    · rfl
    · simp [WhitespacePolicy.apply, WhitespacePolicy.edge, trimEnds]
  exact added.trans (if_pos nothing)

theorem sameOutline_addText (flat : FlatAssembly) (run : TextRun) :
    SameOutline flat (flat.addText run) := by
  obtain ⟨text, -, added⟩ := flat.addText_cases run
  rw [added]
  split
  · exact .refl flat
  · exact sameOutline_append flat _

@[simp]
theorem openNames_addText (flat : FlatAssembly) (run : TextRun) :
    (flat.addText run).openNames = flat.openNames :=
  (flat.sameOutline_addText run).openNames_eq

/-- The element goes into the tree, is collected or becomes prop types, wherever the tag stands. -/
theorem place_cases (tag : Tag) (body : Option RawBody) :
    (∃ child, ∀ flat, place flat tag body = flat.append child) ∨
      (∀ flat, ∃ buckets imports, place flat tag body = { flat with buckets, imports }) ∨
      ∃ text, ∀ flat, place flat tag body =
        flat.modifyComponent fun component => { component with propTypes := some text } := by
  unfold place
  cases Destination.ofElement tag body with
  | tree => exact .inl ⟨_, fun _ => rfl⟩
  | imports imported => exact .inr (.inl fun _ => ⟨_, _, rfl⟩)
  | script bucket script => exact .inr (.inl fun _ => ⟨_, _, rfl⟩)
  | style bucket style => exact .inr (.inl fun _ => ⟨_, _, rfl⟩)
  | propTypes text => exact .inr (.inr ⟨text, fun _ => rfl⟩)
  | nowhere => exact .inr (.inl fun _ => ⟨_, _, rfl⟩)

theorem sameOutline_place (flat : FlatAssembly) (tag : Tag) (body : Option RawBody) :
    SameOutline flat (flat.place tag body) := by
  rcases place_cases tag body with ⟨child, placed⟩ | collected | ⟨text, noted⟩
  · rw [placed]
    exact sameOutline_append flat child
  · obtain ⟨buckets, imports, placed⟩ := collected flat
    rw [placed]
    exact ⟨rfl, rfl⟩
  · rw [noted]
    exact sameOutline_modifyComponent flat _

/-- Note a slot if the tag is one. -/
def noteSlot (flat : FlatAssembly) (tag : Tag) : FlatAssembly :=
  if tag.name == "slot" then flat.modifyComponent (·.recordSlot tag) else flat

theorem sameOutline_noteSlot (flat : FlatAssembly) (tag : Tag) :
    SameOutline flat (flat.noteSlot tag) := by
  unfold noteSlot
  split
  · exact sameOutline_modifyComponent flat _
  · exact .refl flat

/-- An element is put down closed or is opened, wherever it stands.  No void element is opened. -/
theorem addElement_cases (opening : OpeningTag) (body : Option RawBody) :
    (∃ child, ∀ flat, addElement flat opening body = (flat.noteSlot opening.tag).append child) ∨
      opening.tag.isVoid = false ∧ ∀ flat, addElement flat opening body =
        { flat.noteSlot opening.tag with
          frames := .element (.ofTag opening.tag) :: (flat.noteSlot opening.tag).frames } := by
  by_cases isClosed : opening.isSelfClosing || opening.tag.isVoid || body.isSome
  · exact .inl ⟨_, fun _ => if_pos isClosed⟩
  · refine .inr ⟨?_, fun _ => if_neg isClosed⟩
    cases isVoid : opening.tag.isVoid with
    | true => simp [isVoid] at isClosed
    | false => rfl

/-- An opening tag is put somewhere, opens a component or adds an element, wherever it stands. -/
theorem openTag_cases (opening : OpeningTag) (body : Option RawBody) :
    (∀ flat, openTag flat opening body = .ok (flat.place opening.tag body)) ∨
      (∃ name, opening.tag.componentName? = some name ∧
        ∀ flat, openTag flat opening body = flat.openComponent name opening) ∨
      ∀ flat, openTag flat opening body = .ok (flat.addElement opening body) := by
  by_cases isPlaced : opening.tag.name == "link" || TagName.hasForeignBody opening.tag.name
  · exact .inl fun flat => if_pos isPlaced
  · cases declared : opening.tag.componentName? with
    | some name =>
        refine .inr (.inl ⟨name, rfl, fun flat => ?_⟩)
        rw [openTag, if_neg isPlaced, declared]
    | none =>
        refine .inr (.inr fun flat => ?_)
        rw [openTag, if_neg isPlaced, declared]

theorem name_of_componentName?_eq_some {tag : Tag} {name : String}
    (declared : tag.componentName? = some name) : tag.name = "template" := by
  unfold Tag.componentName? at declared
  split at declared
  · next same => exact beq_iff_eq.mp same
  · cases declared

theorem openTag_of_componentName? {opening : OpeningTag} {name : String}
    (declared : opening.tag.componentName? = some name) (body : Option RawBody)
    (flat : FlatAssembly) : flat.openTag opening body = flat.openComponent name opening := by
  have notPlaced :
      ¬ (opening.tag.name == "link" || TagName.hasForeignBody opening.tag.name) = true := by
    rw [name_of_componentName?_eq_some declared]
    decide
  rw [openTag, if_neg notPlaced, declared]

/-- An opening tag that declares no component leaves what is open and declared as it is, or opens an
element. -/
theorem openTag_outline {flat next : FlatAssembly} {opening : OpeningTag} {body : Option RawBody}
    (step : flat.openTag opening body = .ok next) :
    (∃ name, opening.tag.componentName? = some name ∧
      flat.openComponent name opening = .ok next) ∨ SameOutline flat next ∨
      opening.tag.isVoid = false ∧
        SameOutline { flat with frames := .element (.ofTag opening.tag) :: flat.frames } next := by
  rcases openTag_cases opening body with placed | ⟨name, declared, opened⟩ | added
  · cases (placed flat).symm.trans step
    exact .inr (.inl (sameOutline_place flat _ _))
  · exact .inl ⟨name, declared, (opened flat).symm.trans step⟩
  · cases (added flat).symm.trans step
    have noted := flat.sameOutline_noteSlot opening.tag
    rcases addElement_cases opening body with ⟨child, closed⟩ | ⟨notVoid, opened⟩
    · rw [closed]
      exact .inr (.inl (noted.trans (sameOutline_append _ child)))
    · rw [opened]
      exact .inr (.inr ⟨notVoid, noted.push opening.tag⟩)

/-- An opening tag adds its own name or nothing, and the name of a void element is not added. -/
theorem openNames_openTag {flat next : FlatAssembly} {opening : OpeningTag} {body : Option RawBody}
    (step : flat.openTag opening body = .ok next) :
    next.openNames = flat.openNames ∨
      opening.tag.isVoid = false ∧ next.openNames = opening.tag.name :: flat.openNames := by
  rcases openTag_outline step with ⟨name, declared, opened⟩ | same | ⟨notVoid, same⟩
  · have isTemplate := name_of_componentName?_eq_some declared
    simp only [openComponent] at opened
    split at opened
    · cases opened
    · cases opened
      split
      · exact .inl (openNames_pop _)
      · rw [Tag.isVoid, isTemplate]
        exact .inr ⟨by decide, rfl⟩
  · exact .inl same.openNames_eq
  · exact .inr ⟨notVoid, same.openNames_eq⟩

theorem findIdx?_tagName (flat : FlatAssembly) (name : String) :
    flat.frames.findIdx? (·.tagName == name) = flat.openNames.findIdx? (· == name) := by
  rw [openNames, List.findIdx?_map]
  rfl

/-- A closing tag closes the first node of its name, together with everything inside of it. -/
theorem closeTag_of_openNames {flat : FlatAssembly} {closing : ClosingTag}
    {inside outside : List String} (names : flat.openNames = inside ++ closing.name :: outside)
    (isFirst : closing.name ∉ inside) :
    flat.closeTag closing = .ok (popMany (inside.length + 1) flat) := by
  have notInside : inside.findIdx? (· == closing.name) = none := by
    rw [List.findIdx?_eq_none_iff]
    intro name member
    exact beq_false_of_ne fun same => isFirst (same ▸ member)
  have found : flat.openNames.findIdx? (· == closing.name) = some inside.length := by
    rw [names, List.findIdx?_append, notInside, List.findIdx?_cons]
    simp
  simp only [closeTag, findIdx?_tagName, found]

theorem closeTag_of_not_mem {flat : FlatAssembly} {closing : ClosingTag}
    (notOpen : closing.name ∉ flat.openNames) :
    flat.closeTag closing = .error (Assembly.unmatched closing) := by
  have none : flat.openNames.findIdx? (· == closing.name) = none := by
    rw [List.findIdx?_eq_none_iff]
    intro name isOpen
    exact beq_false_of_ne fun same => notOpen (same ▸ isOpen)
  simp only [closeTag, findIdx?_tagName, none]
  rfl

/-- A closing tag that closes something finds the name that it closes. -/
theorem exists_openNames_of_closeTag {flat next : FlatAssembly} {closing : ClosingTag}
    (closes : flat.closeTag closing = .ok next) :
    ∃ inside outside, flat.openNames = inside ++ closing.name :: outside ∧
      closing.name ∉ inside ∧ next = popMany (inside.length + 1) flat := by
  by_cases isOpen : closing.name ∈ flat.openNames
  · obtain ⟨inside, outside, names, isFirst⟩ := List.eq_append_cons_of_mem isOpen
    rw [closeTag_of_openNames names isFirst] at closes
    exact ⟨inside, outside, names, isFirst, (Except.ok.inj closes).symm⟩
  · rw [closeTag_of_not_mem isOpen] at closes
    cases closes

/-- A closing tag does the same if everything inside of its element has been closed already. -/
theorem closeTag_popMany (flat : FlatAssembly) (closing : ClosingTag) :
    (popMany (flat.openNames.takeWhile (· != closing.name)).length flat).closeTag closing =
      flat.closeTag closing := by
  by_cases isOpen : closing.name ∈ flat.openNames
  · obtain ⟨inside, outside, names, isFirst⟩ := List.eq_append_cons_of_mem isOpen
    have passed : flat.openNames.takeWhile (· != closing.name) = inside := by
      rw [names, List.takeWhile_append_of_pos, List.takeWhile_cons_of_neg (by simp),
        List.append_nil]
      intro name member
      exact bne_iff_ne.mpr fun same => isFirst (same ▸ member)
    have left : (popMany inside.length flat).openNames = [] ++ closing.name :: outside := by
      rw [openNames_popMany, names, List.drop_left, List.nil_append]
    rw [passed, closeTag_of_openNames names isFirst, closeTag_of_openNames left List.not_mem_nil,
      List.length_nil, ← Assembly.popMany_add, Nat.zero_add]
  · rw [closeTag_of_not_mem isOpen, closeTag_of_not_mem]
    rw [openNames_popMany]
    exact fun member => isOpen (List.mem_of_mem_drop member)

/-- A closing tag for the innermost open node closes that node alone. -/
theorem closeTag_head {flat : FlatAssembly} {closing : ClosingTag} {rest : List String}
    (isInnermost : flat.openNames = closing.name :: rest) :
    flat.closeTag closing = .ok flat.pop :=
  closeTag_of_openNames (isInnermost.trans (List.nil_append _).symm) List.not_mem_nil

/-- Closing some of what is open before the end makes no difference. -/
theorem finish_popMany {flat : FlatAssembly} {count : Nat} (areOpen : count ≤ flat.frames.length)
    (sourcePath : Option String) : (popMany count flat).finish sourcePath = flat.finish sourcePath := by
  have left : (popMany count flat).frames.length = flat.frames.length - count := by
    rw [← length_openNames, openNames_popMany, List.length_drop, length_openNames]
  have all : popMany (popMany count flat).frames.length (popMany count flat) =
      popMany flat.frames.length flat := by
    rw [left, ← Assembly.popMany_add, Nat.add_sub_of_le areOpen]
  simp only [finish, all]

/-- Whatever is open after a step was open before or has been opened by it. -/
theorem mem_openNames_step {flat next : FlatAssembly} {token : Token} {name : String}
    (step : flat.step token = .ok next) (isOpen : name ∈ next.openNames) :
    name ∈ flat.openNames ∨ ∃ opening body, token = .opening opening body ∧
      opening.tag.isVoid = false ∧ opening.tag.name = name := by
  cases token with
  | text run =>
      cases step
      rw [openNames_addText] at isOpen
      exact .inl isOpen
  | opening opening body =>
      rcases openNames_openTag step with same | ⟨notVoid, added⟩
      · exact .inl (same ▸ isOpen)
      · rw [added] at isOpen
        exact (List.mem_cons.mp isOpen).symm.imp_right fun isNew =>
          ⟨opening, body, rfl, notVoid, isNew.symm⟩
  | closing closing =>
      have step : flat.closeTag closing = .ok next := step
      obtain ⟨inside, outside, -, -, rfl⟩ := exists_openNames_of_closeTag step
      rw [openNames_popMany] at isOpen
      exact .inl (List.mem_of_mem_drop isOpen)

theorem foldlM_append_of_ok {flat middle : FlatAssembly} {first : List Token}
    (run : first.foldlM step flat = .ok middle) (later : List Token) :
    (first ++ later).foldlM step flat = later.foldlM step middle := by
  rw [List.foldlM_append, run]
  rfl

theorem exists_of_foldlM_append {flat next : FlatAssembly} {first later : List Token}
    (run : (first ++ later).foldlM step flat = .ok next) :
    ∃ middle, first.foldlM step flat = .ok middle ∧ later.foldlM step middle = .ok next := by
  cases begun : first.foldlM step flat with
  | error fault =>
      rw [List.foldlM_append, begun] at run
      cases run
  | ok middle =>
      rw [foldlM_append_of_ok begun] at run
      exact ⟨middle, rfl, run⟩

end FlatAssembly

/-- The names of everything that is open, innermost first.  An open inline component counts as a
`template`. -/
def Assembly.openNames (assembly : Assembly) : List String :=
  assembly.inline.flatMap (fun opened => opened.2.nested.map (·.tag.name) ++ ["template"]) ++
    assembly.main.nested.map (·.tag.name)

theorem Assembly.openNames_flatten (assembly : Assembly) :
    assembly.flatten.openNames = assembly.openNames := by
  have names (scope : Scope) : scope.frames.map Frame.tagName = scope.nested.map (·.tag.name) := by
    rw [Scope.frames, List.map_map]
    rfl
  unfold FlatAssembly.openNames openNames flatten
  rw [List.map_append, List.map_flatMap, names]
  congr 2
  funext opened
  rw [framesOf, List.map_append, names]
  rfl

end TemplateMarkup
