import TemplateMarkup.Proofs.Assembly.Scopes

/-!
# One flat stack of open nodes

A second way to put a template together.  It keeps one stack for everything that is open, elements and
inline components alike, above the root of the file's own markup.  A closing tag closes the topmost
frame of its name and all frames above that one, and the frame of an inline component has the name
`template`.

The assembly keeps a stack of scopes, each of which has a stack of open elements.  Laying these stacks
end to end gives the flat stack, and every step of the assembly is a step of the flat one.  So both
make the same of every source.
-/

namespace TemplateMarkup

theorem exists_of_foldlM_cons {ε α β : Type} {step : β → α → Except ε β} {state final : β}
    {first : α} {later : List α} (run : (first :: later).foldlM step state = .ok final) :
    ∃ middle, step state first = .ok middle ∧ later.foldlM step middle = .ok final := by
  rw [List.foldlM_cons] at run
  cases stepped : step state first with
  | error fault =>
      rw [stepped] at run
      cases run
  | ok middle =>
      rw [stepped] at run
      exact ⟨middle, rfl, run⟩

/-- What every step of a run keeps holds in the end if it holds at the start. -/
theorem holds_of_foldlM {ε α β : Type} {step : β → α → Except ε β} (Holds : β → Prop)
    {state final : β} {steps : List α} (holds : Holds state)
    (kept : ∀ first ∈ steps, ∀ {state next}, step state first = .ok next → Holds state → Holds next)
    (run : steps.foldlM step state = .ok final) : Holds final := by
  induction steps generalizing state with
  | nil =>
      cases run
      exact holds
  | cons first later ih =>
      obtain ⟨middle, stepped, goesOn⟩ := exists_of_foldlM_cons run
      exact ih (kept first List.mem_cons_self stepped holds)
        (fun other isLater => kept other (List.mem_cons_of_mem _ isLater)) goesOn

/-- What is known of a component that is still being read, except for its open elements. -/
structure OpenComponent where
  root : OpenElement
  hasDefaultSlot : Bool
  namedSlots : NameSet
  propTypes : Option String

namespace OpenComponent

def ofRoot (tag : Tag) : OpenComponent := ⟨.ofTag tag, false, .empty, none⟩

def append (component : OpenComponent) (child : Node) : OpenComponent :=
  { component with root := component.root.append child }

/-- Note a slot: by its name, or as the default one if it has none. -/
def recordSlot (component : OpenComponent) (tag : Tag) : OpenComponent :=
  match tag.nonemptyValue? "name" with
  | some name => { component with namedSlots := component.namedSlots.insert name }
  | none => { component with hasDefaultSlot := true }

def toComponent (component : OpenComponent) : Component :=
  ⟨component.root.toElement, component.hasDefaultSlot, component.namedSlots, component.propTypes⟩

end OpenComponent

/-- An open element or an open inline component. -/
inductive Frame where
  | element (opened : OpenElement)
  | component (name : String) (opened : OpenComponent)

namespace Frame

def tagName : Frame → String
  | element opened => opened.tag.name
  | component _ _ => "template"

/-- The element whose children the frame collects. -/
def holder : Frame → OpenElement
  | element opened => opened
  | component _ opened => opened.root

def append (child : Node) : Frame → Frame
  | element opened => element (opened.append child)
  | component name opened => component name (opened.append child)

/-- Change the topmost inline component of a stack, if there is one. -/
def modifyComponent? (change : OpenComponent → OpenComponent) : List Frame → Option (List Frame)
  | [] => none
  | element opened :: below => (modifyComponent? change below).map (element opened :: ·)
  | component name opened :: below => some (component name (change opened) :: below)

end Frame

/-- A template that is being put together on one stack. -/
structure FlatAssembly where
  main : OpenComponent
  /-- Everything that is open, innermost first. -/
  frames : List Frame
  components : NameMap (Option Component)
  buckets : NameMap Bucket
  imports : List ComponentImport

namespace FlatAssembly

def initial (start : Position) : FlatAssembly :=
  ⟨.ofRoot (.bare "" start), [], .empty, .empty, []⟩

def holder (flat : FlatAssembly) : OpenElement :=
  (flat.frames.head?.map Frame.holder).getD flat.main.root

/-- Add a node to the top frame. -/
def append (flat : FlatAssembly) (child : Node) : FlatAssembly :=
  match flat.frames with
  | [] => { flat with main := flat.main.append child }
  | frame :: below => { flat with frames := frame.append child :: below }

/-- Change the topmost inline component, or the file's own markup if none is open. -/
def modifyComponent (flat : FlatAssembly) (change : OpenComponent → OpenComponent) : FlatAssembly :=
  match Frame.modifyComponent? change flat.frames with
  | some frames => { flat with frames }
  | none => { flat with main := change flat.main }

/-- Close the top frame.  An element goes to the frame below, a component among the declared ones. -/
def pop (flat : FlatAssembly) : FlatAssembly :=
  match flat.frames with
  | [] => flat
  | .element opened :: below => { flat with frames := below }.append opened.toElement.toNode
  | .component name opened :: below =>
      { flat with
        frames := below
        components := flat.components.insert name (some opened.toComponent) }

def popMany : Nat → FlatAssembly → FlatAssembly
  | 0, flat => flat
  | count + 1, flat => popMany count flat.pop

def keepsWhitespace (flat : FlatAssembly) : Bool :=
  flat.frames.any fun frame => TagName.keepsWhitespace frame.tagName

def addText (flat : FlatAssembly) (run : TextRun) : FlatAssembly :=
  let policy := WhitespacePolicy.between flat.holder.latest.isEmpty (run.ending ≠ .openingTag)
  let text :=
    if flat.keepsWhitespace then run.text else String.ofList (policy.apply run.text.toList)
  if text.isEmpty then flat else flat.append (.text text run.position)

def addClosed (flat : FlatAssembly) (tag : Tag) (body : Option RawBody) : FlatAssembly :=
  flat.append (.element tag (RawBody.children body))

def place (flat : FlatAssembly) (tag : Tag) (body : Option RawBody) : FlatAssembly :=
  match Destination.ofElement tag body with
  | .tree => flat.addClosed tag body
  | .imports imported => { flat with imports := flat.imports ++ [imported] }
  | .script bucket script =>
      { flat with
        buckets := flat.buckets.update bucket .empty fun gathered =>
          { gathered with scripts := gathered.scripts ++ [script] } }
  | .style bucket style =>
      { flat with
        buckets := flat.buckets.update bucket .empty fun gathered =>
          { gathered with styles := gathered.styles ++ [style] } }
  | .propTypes text => flat.modifyComponent fun component => { component with propTypes := some text }
  | .nowhere => flat

def openComponent (flat : FlatAssembly) (name : String) (opening : OpeningTag) :
    Except ParseError FlatAssembly :=
  if flat.components.contains name then
    .error ⟨.duplicateComponent name, opening.tag.position, opening.span⟩
  else
    let opened :=
      { flat with
        frames := .component name (.ofRoot opening.tag) :: flat.frames
        components := flat.components.insert name none }
    .ok (if opening.isSelfClosing then opened.pop else opened)

def addElement (flat : FlatAssembly) (opening : OpeningTag) (body : Option RawBody) :
    FlatAssembly :=
  let noted :=
    if opening.tag.name == "slot" then flat.modifyComponent (·.recordSlot opening.tag) else flat
  if opening.isSelfClosing || opening.tag.isVoid || body.isSome then
    noted.addClosed opening.tag body
  else
    { noted with frames := .element (.ofTag opening.tag) :: noted.frames }

def openTag (flat : FlatAssembly) (opening : OpeningTag) (body : Option RawBody) :
    Except ParseError FlatAssembly :=
  if opening.tag.name == "link" || TagName.hasForeignBody opening.tag.name then
    .ok (flat.place opening.tag body)
  else
    match opening.tag.componentName? with
    | some name => flat.openComponent name opening
    | none => .ok (flat.addElement opening body)

/-- Close the topmost frame of a name and all frames above it. -/
def closeTag (flat : FlatAssembly) (closing : ClosingTag) : Except ParseError FlatAssembly :=
  match flat.frames.findIdx? (·.tagName == closing.name) with
  | some above => .ok (popMany (above + 1) flat)
  | none =>
      let fault :=
        if closing.name = "template" then .unexpectedScopeClose
        else .unmatchedClosingTag closing.name
      .error ⟨fault, closing.position, closing.span⟩

def step (flat : FlatAssembly) : Token → Except ParseError FlatAssembly
  | .text run => .ok (flat.addText run)
  | .opening tag body => flat.openTag tag body
  | .closing tag => flat.closeTag tag

def finish (flat : FlatAssembly) (sourcePath : Option String) : Template :=
  let closed := popMany flat.frames.length flat
  { sourcePath
    main := closed.main.toComponent
    inlineComponents := closed.components.filterMap id
    buckets := closed.buckets
    imports := closed.imports }

/-- Read a template on one stack. -/
def parse (source : String) (start : Position) (sourcePath : Option String) :
    Except ParseError Template := do
  let flat ← (Token.scan source start).foldlM step (initial start)
  return flat.finish sourcePath

end FlatAssembly

namespace Scope

def opened (scope : Scope) : OpenComponent :=
  ⟨scope.root, scope.hasDefaultSlot, scope.namedSlots, scope.propTypes⟩

def frames (scope : Scope) : List Frame :=
  scope.nested.map .element

end Scope

namespace Assembly

/-- The frames of an inline component: its open elements above its own frame. -/
def framesOf (opened : String × Scope) : List Frame :=
  opened.2.frames ++ [.component opened.1 opened.2.opened]

def flatten (assembly : Assembly) : FlatAssembly :=
  { main := assembly.main.opened
    frames := assembly.inline.flatMap framesOf ++ assembly.main.frames
    components := assembly.components
    buckets := assembly.buckets
    imports := assembly.imports }

theorem holder_flatten (assembly : Assembly) :
    assembly.flatten.holder = assembly.current.innermost := by
  rcases assembly with ⟨⟨root, nested, hasDefaultSlot, namedSlots, propTypes⟩, inline, components,
    buckets, imports⟩
  cases inline with
  | nil => cases nested <;> rfl
  | cons opened outer =>
      rcases opened with ⟨name, ⟨root, nested, hasDefaultSlot, namedSlots, propTypes⟩⟩
      cases nested <;> rfl

theorem append_flatten (assembly : Assembly) (child : Node) :
    assembly.flatten.append child = (assembly.modifyCurrent (·.append child)).flatten := by
  rcases assembly with ⟨⟨root, nested, hasDefaultSlot, namedSlots, propTypes⟩, inline, components,
    buckets, imports⟩
  cases inline with
  | nil => cases nested <;> rfl
  | cons opened outer =>
      rcases opened with ⟨name, ⟨root, nested, hasDefaultSlot, namedSlots, propTypes⟩⟩
      cases nested <;> rfl

theorem push_flatten (assembly : Assembly) (tag : Tag) :
    { assembly.flatten with frames := .element (.ofTag tag) :: assembly.flatten.frames } =
      (assembly.modifyCurrent (·.push tag)).flatten := by
  rcases assembly with ⟨main, inline, components, buckets, imports⟩
  cases inline <;> rfl

theorem keepsWhitespace_frames (scope : Scope) :
    scope.frames.any (TagName.keepsWhitespace ·.tagName) = scope.keepsWhitespace := by
  rw [Scope.frames, List.any_map]
  rfl

theorem keepsWhitespace_flatten (assembly : Assembly) :
    assembly.flatten.keepsWhitespace = assembly.keepsWhitespace := by
  unfold FlatAssembly.keepsWhitespace keepsWhitespace flatten
  rw [List.any_append, keepsWhitespace_frames, List.any_flatMap, Bool.or_comm]
  congr 2
  funext opened
  rw [framesOf, List.any_append, keepsWhitespace_frames]
  simp [Frame.tagName, TagName.keepsWhitespace]

/-- Elements above a component are passed over when the component is changed. -/
theorem modifyComponent?_frames (change : OpenComponent → OpenComponent) (scope : Scope)
    (below : List Frame) :
    Frame.modifyComponent? change (scope.frames ++ below) =
      (Frame.modifyComponent? change below).map (scope.frames ++ ·) := by
  unfold Scope.frames
  induction scope.nested with
  | nil => simp
  | cons element outer ih =>
      rw [List.map_cons, List.cons_append, Frame.modifyComponent?, ih]
      cases Frame.modifyComponent? change below <;> rfl

theorem modifyComponent_flatten (assembly : Assembly) (change : OpenComponent → OpenComponent)
    (changeScope : Scope → Scope) (keepsOpen : ∀ scope, (changeScope scope).nested = scope.nested)
    (changes : ∀ scope, (changeScope scope).opened = change scope.opened) :
    assembly.flatten.modifyComponent change = (assembly.modifyCurrent changeScope).flatten := by
  have sameFrames (scope : Scope) : (changeScope scope).frames = scope.frames := by
    rw [Scope.frames, keepsOpen, Scope.frames]
  rcases assembly with ⟨main, inline, components, buckets, imports⟩
  cases inline with
  | nil =>
      have none : Frame.modifyComponent? change main.frames = none := by
        have whole := modifyComponent?_frames change main []
        rwa [List.append_nil] at whole
      simp [FlatAssembly.modifyComponent, flatten, modifyCurrent, none, sameFrames, changes]
  | cons opened outer =>
      simp [FlatAssembly.modifyComponent, flatten, modifyCurrent, framesOf,
        modifyComponent?_frames, Frame.modifyComponent?, sameFrames, changes]

theorem pop_flatten (assembly : Assembly) (isOpen : assembly.current.nested ≠ []) :
    assembly.flatten.pop = (assembly.modifyCurrent Scope.closeInnermost).flatten := by
  rcases assembly with ⟨⟨root, nested, hasDefaultSlot, namedSlots, propTypes⟩, inline, components,
    buckets, imports⟩
  cases inline with
  | nil =>
      cases nested with
      | nil => exact absurd rfl isOpen
      | cons element outer => cases outer <;> rfl
  | cons opened outer =>
      rcases opened with ⟨name, ⟨root, nested, hasDefaultSlot, namedSlots, propTypes⟩⟩
      cases nested with
      | nil => exact absurd rfl isOpen
      | cons element outer => cases outer <;> rfl

theorem popMany_flatten (count : Nat) (assembly : Assembly)
    (areOpen : count ≤ assembly.current.nested.length) :
    FlatAssembly.popMany count assembly.flatten =
      (assembly.modifyCurrent (Scope.closeMany count)).flatten := by
  induction count generalizing assembly with
  | zero => exact congrArg flatten assembly.modifyCurrent_self.symm
  | succ count ih =>
      have isOpen : assembly.current.nested ≠ [] := by
        intro empty
        simp [empty] at areOpen
      rw [FlatAssembly.popMany, assembly.pop_flatten isOpen, ih, modifyCurrent_modifyCurrent]
      · rfl
      · rw [current_modifyCurrent, Scope.length_nested_closeInnermost]
        omega

theorem popMany_add (first later : Nat) (flat : FlatAssembly) :
    FlatAssembly.popMany (first + later) flat =
      FlatAssembly.popMany later (FlatAssembly.popMany first flat) := by
  induction first generalizing flat with
  | zero => rw [Nat.zero_add, FlatAssembly.popMany]
  | succ count ih => rw [Nat.add_right_comm, FlatAssembly.popMany, ih, FlatAssembly.popMany]

/-- Closing a scope closes its open elements and then its own frame. -/
theorem popMany_closeScope {assembly : Assembly} {name : String} {scope : Scope}
    {outer : List (String × Scope)} (isInnermost : assembly.inline = (name, scope) :: outer) :
    FlatAssembly.popMany (scope.nested.length + 1) assembly.flatten =
      assembly.closeScope.flatten := by
  rcases assembly with ⟨main, inline, components, buckets, imports⟩
  cases isInnermost
  have noneOpen : (Scope.closeMany scope.nested.length scope).frames = [] := by
    rw [Scope.frames, List.map_eq_nil_iff, ← List.length_eq_zero_iff,
      Scope.length_nested_closeMany, Nat.sub_self]
  rw [popMany_add, popMany_flatten scope.nested.length
    ⟨main, (name, scope) :: outer, components, buckets, imports⟩ (Nat.le_refl _)]
  simp only [modifyCurrent, flatten, framesOf, noneOpen, closeScope, List.flatMap_cons,
    List.nil_append, List.cons_append]
  rfl

/-- The number of frames to close so that the topmost one of a name is closed. -/
def depthAmong? (frames : List Frame) (name : String) : Option Nat :=
  (frames.findIdx? (·.tagName == name)).map (· + 1)

theorem closeTag_flat (flat : FlatAssembly) (closing : ClosingTag) :
    flat.closeTag closing =
      match depthAmong? flat.frames closing.name with
      | some depth => .ok (FlatAssembly.popMany depth flat)
      | none => .error (unmatched closing) := by
  unfold FlatAssembly.closeTag depthAmong?
  cases flat.frames.findIdx? (·.tagName == closing.name) <;> rfl

theorem depthAmong?_frames (scope : Scope) (name : String) :
    depthAmong? scope.frames name = scope.depthOf? name := by
  rw [depthAmong?, Scope.frames, List.findIdx?_map]
  rfl

theorem depthAmong?_append (scope : Scope) (below : List Frame) (name : String) :
    depthAmong? (scope.frames ++ below) name =
      (scope.depthOf? name).or ((depthAmong? below name).map (scope.nested.length + ·)) := by
  have length : scope.frames.length = scope.nested.length := List.length_map _
  rw [← depthAmong?_frames]
  unfold depthAmong?
  rw [List.findIdx?_append, length]
  cases scope.frames.findIdx? (·.tagName == name) with
  | some index => rfl
  | none =>
      cases below.findIdx? (·.tagName == name) with
      | none => rfl
      | some index =>
          have sum : index + scope.nested.length + 1 = scope.nested.length + (index + 1) := by omega
          exact congrArg some sum

theorem depthAmong?_component (name : String) (opened : OpenComponent) (below : List Frame)
    (sought : String) :
    depthAmong? (.component name opened :: below) sought =
      if sought = "template" then some 1 else (depthAmong? below sought).map (1 + ·) := by
  unfold depthAmong?
  rw [List.findIdx?_cons]
  by_cases isTemplate : sought = "template"
  · simp [Frame.tagName, isTemplate]
  · have notHere : ((Frame.component name opened).tagName == sought) = false :=
      beq_eq_false_iff_ne.mpr (Ne.symm isTemplate)
    simp only [notHere, if_neg isTemplate, Bool.false_eq_true, if_false]
    cases below.findIdx? (·.tagName == sought) with
    | none => rfl
    | some index => simp [Nat.add_comm]

/-- The topmost frame of a name is found in the scope where the assembly finds it. -/
theorem closeWithin_flatten (closing : ClosingTag) (scopes : List (String × Scope))
    (assembly : Assembly) (areOpen : assembly.inline = scopes) :
    assembly.flatten.closeTag closing = (closeWithin closing scopes assembly).map flatten := by
  induction scopes generalizing assembly with
  | nil =>
      have isMain : assembly.current = assembly.main := by rw [current, areOpen]
      have frames : assembly.flatten.frames = assembly.main.frames := by simp [flatten, areOpen]
      rw [closeTag_flat, frames, depthAmong?_frames, closeWithin]
      cases found : assembly.main.depthOf? closing.name with
      | none => rfl
      | some depth =>
          have inside : depth ≤ assembly.current.nested.length := by
            rw [isMain]
            exact Scope.depthOf?_le found
          exact congrArg Except.ok (popMany_flatten depth assembly inside)
  | cons opened outer ih =>
      rcases opened with ⟨name, scope⟩
      have isCurrent : assembly.current = scope := by rw [current, areOpen]
      have rest : assembly.closeScope.inline = outer := by rw [closeScope, areOpen]
      have frames : assembly.flatten.frames = scope.frames ++
          .component name scope.opened :: assembly.closeScope.flatten.frames := by
        simp [flatten, areOpen, framesOf, closeScope]
      rw [closeTag_flat, frames, depthAmong?_append, depthAmong?_component, closeWithin]
      cases found : scope.depthOf? closing.name with
      | some depth =>
          have inside : depth ≤ assembly.current.nested.length := by
            rw [isCurrent]
            exact Scope.depthOf?_le found
          exact congrArg Except.ok (popMany_flatten depth assembly inside)
      | none =>
          simp only [Option.none_or]
          by_cases isTemplate : closing.name = "template"
          · rw [if_pos isTemplate, if_pos isTemplate]
            exact congrArg Except.ok (popMany_closeScope areOpen)
          · rw [if_neg isTemplate, if_neg isTemplate, ← ih assembly.closeScope rest, closeTag_flat]
            cases depthAmong? assembly.closeScope.flatten.frames closing.name with
            | none => rfl
            | some depth =>
                simp only [Option.map_some, ← Nat.add_assoc]
                rw [popMany_add, popMany_closeScope areOpen]

theorem addText_flatten (assembly : Assembly) (run : TextRun) :
    assembly.flatten.addText run = (assembly.addText run).flatten := by
  unfold FlatAssembly.addText addText
  simp only [holder_flatten, keepsWhitespace_flatten, append_flatten]
  exact (apply_ite flatten _ _ _).symm

theorem place_flatten (assembly : Assembly) (tag : Tag) (body : Option RawBody) :
    assembly.flatten.place tag body = (assembly.place tag body).flatten := by
  unfold FlatAssembly.place place
  cases Destination.ofElement tag body with
  | tree => exact append_flatten assembly _
  | imports imported => rfl
  | script bucket script => rfl
  | style bucket style => rfl
  | propTypes text =>
      exact modifyComponent_flatten assembly _ _ (fun _ => rfl) fun _ => rfl
  | nowhere => rfl

theorem openComponent_flatten (assembly : Assembly) (name : String) (opening : OpeningTag) :
    assembly.flatten.openComponent name opening =
      (assembly.openComponent name opening).map flatten := by
  unfold FlatAssembly.openComponent openComponent
  rw [show assembly.flatten.components = assembly.components from rfl]
  split
  · rfl
  · let opened : Assembly :=
      { assembly with
        inline := (name, .ofRoot opening.tag) :: assembly.inline
        components := assembly.components.insert name none }
    have isInnermost : opened.inline = (name, .ofRoot opening.tag) :: assembly.inline := rfl
    have closed : opened.flatten.pop = opened.closeScope.flatten := popMany_closeScope isInnermost
    refine congrArg Except.ok ?_
    rw [apply_ite flatten, ← closed]
    rfl

theorem addElement_flatten (assembly : Assembly) (opening : OpeningTag) (body : Option RawBody) :
    assembly.flatten.addElement opening body = (assembly.addElement opening body).flatten := by
  have recorded : assembly.flatten.modifyComponent (·.recordSlot opening.tag) =
      (assembly.modifyCurrent (·.recordSlot opening.tag)).flatten := by
    refine modifyComponent_flatten assembly _ _ ?_ ?_
    · intro scope
      unfold Scope.recordSlot
      split <;> rfl
    · intro scope
      unfold Scope.recordSlot OpenComponent.recordSlot
      cases opening.tag.nonemptyValue? "name" <;> rfl
  unfold FlatAssembly.addElement addElement
  simp only [recorded, ← apply_ite flatten, FlatAssembly.addClosed, append_flatten, push_flatten]
  rfl

theorem step_flatten (assembly : Assembly) (token : Token) :
    assembly.flatten.step token = (assembly.step token).map flatten := by
  cases token with
  | text run => exact congrArg Except.ok (addText_flatten assembly run)
  | opening tag body =>
      unfold FlatAssembly.step step FlatAssembly.openTag openTag
      simp only [place_flatten, openComponent_flatten, addElement_flatten]
      split
      · rfl
      · cases tag.tag.componentName? <;> rfl
  | closing tag => exact closeWithin_flatten tag assembly.inline assembly rfl

/-- Every run of the assembly is a run on the flat stack. -/
theorem foldlM_step_flatten (assembly : Assembly) (tokens : List Token) :
    tokens.foldlM FlatAssembly.step assembly.flatten =
      (tokens.foldlM step assembly).map flatten := by
  induction tokens generalizing assembly with
  | nil => rfl
  | cons token rest ih =>
      rw [List.foldlM_cons, List.foldlM_cons, step_flatten]
      cases assembly.step token with
      | error fault => rfl
      | ok next => exact ih next

/-- Closing all scopes and then the elements of the file's own markup closes all frames. -/
theorem popMany_closeScopes (scopes : List (String × Scope)) (assembly : Assembly)
    (areOpen : assembly.inline = scopes) :
    FlatAssembly.popMany assembly.flatten.frames.length assembly.flatten =
      ((closeScopes scopes.length assembly).modifyCurrent
        (Scope.closeMany assembly.main.nested.length)).flatten := by
  induction scopes generalizing assembly with
  | nil =>
      have isMain : assembly.current = assembly.main := by rw [current, areOpen]
      have count : assembly.flatten.frames.length = assembly.main.nested.length := by
        simp [flatten, areOpen, Scope.frames]
      rw [count, popMany_flatten _ _ (Nat.le_of_eq (by rw [isMain]))]
      rfl
  | cons opened outer ih =>
      rcases opened with ⟨name, scope⟩
      have rest : assembly.closeScope.inline = outer := by rw [closeScope, areOpen]
      have sameMain : assembly.closeScope.main = assembly.main := by rw [closeScope, areOpen]
      have count : assembly.flatten.frames.length =
          scope.nested.length + 1 + assembly.closeScope.flatten.frames.length := by
        simp [flatten, areOpen, framesOf, closeScope, Scope.frames]
        omega
      rw [count, popMany_add, popMany_closeScope areOpen, ih _ rest, sameMain]
      rfl

theorem inline_closeScopes (scopes : List (String × Scope)) (assembly : Assembly)
    (areOpen : assembly.inline = scopes) :
    (closeScopes scopes.length assembly).inline = [] ∧
      (closeScopes scopes.length assembly).main = assembly.main := by
  induction scopes generalizing assembly with
  | nil => exact ⟨areOpen, rfl⟩
  | cons opened outer ih =>
      have rest : assembly.closeScope.inline = outer := by rw [closeScope, areOpen]
      have sameMain : assembly.closeScope.main = assembly.main := by rw [closeScope, areOpen]
      obtain ⟨noneOpen, main⟩ := ih _ rest
      exact ⟨noneOpen, main.trans sameMain⟩

theorem finish_flatten (assembly : Assembly) (sourcePath : Option String) :
    assembly.flatten.finish sourcePath = assembly.finish sourcePath := by
  obtain ⟨noneOpen, sameMain⟩ := inline_closeScopes assembly.inline assembly rfl
  unfold FlatAssembly.finish finish
  rw [popMany_closeScopes assembly.inline assembly rfl]
  generalize closeScopes assembly.inline.length assembly = closed at *
  simp only [modifyCurrent, noneOpen, flatten, ← sameMain]
  rfl

end Assembly

/-- The same tokens make the same template on either stack. -/
theorem Template.ofTokens_eq_flat (tokens : List Token) (start : Position)
    (sourcePath : Option String) :
    ofTokens tokens start sourcePath =
      (tokens.foldlM FlatAssembly.step (.initial start)).map (·.finish sourcePath) := by
  have initial : FlatAssembly.initial start = (Assembly.initial start).flatten := rfl
  unfold ofTokens
  rw [initial, Assembly.foldlM_step_flatten]
  cases tokens.foldlM Assembly.step (.initial start) with
  | error fault => rfl
  | ok assembly => exact congrArg Except.ok (assembly.finish_flatten sourcePath).symm

/-- The stack of scopes behaves like one flat stack of open nodes: both give the same template, or
the same error, for every source. -/
theorem Template.parse_eq_flatParse (source : String) (start : Position)
    (sourcePath : Option String) :
    parse source start sourcePath = FlatAssembly.parse source start sourcePath := by
  unfold parse FlatAssembly.parse
  rw [ofTokens_eq_flat]
  rfl

end TemplateMarkup
