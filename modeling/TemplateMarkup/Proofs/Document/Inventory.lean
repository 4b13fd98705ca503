import TemplateMarkup.Proofs.Document.Remaining

/-!
# Inventories

What is known of a component while it is read: its nodes, in the order of its tree, and its slots.
Every node that is read is entered into one inventory, that of the component whose markup is being
read, or it is the root of a new one.  Closing elements and components changes no inventory.  So the
nodes of a finished component are in the order in which they have been read, and the slots that are
noted for it are those among its nodes.
-/

namespace TemplateMarkup

namespace NodeHead

/-- The tag of a slot. -/
def slot? : NodeHead → Option Tag
  | .text _ _ => none
  | .element tag => if tag.name == "slot" then some tag else none

def slotName? (node : NodeHead) : Option String := node.slot?.bind (·.nonemptyValue? "name")

/-- A slot without a name. -/
def isDefaultSlot (node : NodeHead) : Bool :=
  node.slot?.any fun tag => (tag.nonemptyValue? "name").isNone

end NodeHead

/-- The nodes of a component, the root first, and its slots. -/
structure Inventory where
  nodes : List NodeHead
  hasDefaultSlot : Bool
  namedSlots : NameSet
  deriving DecidableEq, Repr

namespace Inventory

/-- Note that a node is a slot, if it is one. -/
def note (inventory : Inventory) (node : NodeHead) : Inventory :=
  { inventory with
    hasDefaultSlot := inventory.hasDefaultSlot || node.isDefaultSlot
    namedSlots := node.slotName?.elim inventory.namedSlots inventory.namedSlots.insert }

def append (inventory : Inventory) (nodes : List NodeHead) : Inventory :=
  { inventory with nodes := inventory.nodes ++ nodes }

def enter (inventory : Inventory) (node : NodeHead) : Inventory :=
  (inventory.note node).append [node]

/-- Nothing is known but the root. -/
def ofRoot (root : NodeHead) : Inventory := ⟨[root], false, .empty⟩

/-- A root and the nodes below it. -/
def of (root : NodeHead) (below : List NodeHead) : Inventory := below.foldl enter (ofRoot root)

variable {inventory : Inventory}

/-- Nodes that are no slots are only appended. -/
theorem foldl_enter_of_no_slot {nodes : List NodeHead}
    (noSlot : ∀ node ∈ nodes, node.slot? = none) :
    nodes.foldl enter inventory = inventory.append nodes := by
  induction nodes generalizing inventory with
  | nil => exact congrArg (Inventory.mk · _ _) (List.append_nil _).symm
  | cons node rest ih =>
      have isNoSlot : inventory.note node = inventory := by
        simp [note, NodeHead.slotName?, NodeHead.isDefaultSlot, noSlot node List.mem_cons_self]
      rw [List.foldl_cons, ih fun node member => noSlot node (.tail _ member), enter, isNoSlot]
      simp [append]

/-- An element is entered together with what is inside of it if there is no slot inside. -/
theorem append_note {node : NodeHead} {inside : List NodeHead}
    (noSlot : ∀ node ∈ inside, node.slot? = none) :
    (inventory.note node).append (node :: inside) = (node :: inside).foldl enter inventory := by
  rw [List.foldl_cons, foldl_enter_of_no_slot noSlot]
  simp [enter, append]

section

variable (root : NodeHead) (below : List NodeHead)

theorem nodes_of : (of root below).nodes = root :: below := by
  suffices entered : ∀ inventory : Inventory,
      (below.foldl enter inventory).nodes = inventory.nodes ++ below from entered (ofRoot root)
  induction below with
  | nil => exact fun inventory => (List.append_nil _).symm
  | cons node below ih =>
      intro inventory
      rw [List.foldl_cons, ih]
      exact List.append_assoc _ _ _

theorem hasDefaultSlot_of :
    (of root below).hasDefaultSlot = below.any NodeHead.isDefaultSlot := by
  suffices entered : ∀ inventory : Inventory, (below.foldl enter inventory).hasDefaultSlot =
      (inventory.hasDefaultSlot || below.any NodeHead.isDefaultSlot) from entered (ofRoot root)
  induction below with
  | nil => exact fun inventory => (Bool.or_false _).symm
  | cons node below ih =>
      intro inventory
      rw [List.foldl_cons, ih, List.any_cons, ← Bool.or_assoc]
      rfl

theorem namedSlots_of :
    (of root below).namedSlots = .ofList (below.filterMap NodeHead.slotName?) := by
  suffices entered : ∀ inventory : Inventory, (below.foldl enter inventory).namedSlots =
      (below.filterMap NodeHead.slotName?).foldl NameSet.insert inventory.namedSlots from
    entered (ofRoot root)
  induction below with
  | nil => exact fun inventory => rfl
  | cons node below ih =>
      intro inventory
      rw [List.foldl_cons, ih, List.filterMap_cons]
      show List.foldl _ (node.slotName?.elim inventory.namedSlots inventory.namedSlots.insert) _ = _
      cases node.slotName? <;> rfl

end

/-- The nodes of a component are among those that have been read, in the same order, and its slots
are those among its nodes. -/
def IsMadeOf (read : List NodeHead) (inventory : Inventory) : Prop :=
  ∃ root below, inventory = of root below ∧ (root :: below).Sublist read

variable {read : List NodeHead}

theorem isMadeOf_ofRoot (read : List NodeHead) (root : NodeHead) :
    (ofRoot root).IsMadeOf (read ++ [root]) :=
  ⟨root, [], rfl, List.sublist_append_right read [root]⟩

theorem IsMadeOf.append_read (isMade : inventory.IsMadeOf read) (more : List NodeHead) :
    inventory.IsMadeOf (read ++ more) := by
  obtain ⟨root, below, isOf, isSublist⟩ := isMade
  exact ⟨root, below, isOf, isSublist.trans (List.sublist_append_left read more)⟩

theorem IsMadeOf.enter (isMade : inventory.IsMadeOf read) (more : List NodeHead) :
    (more.foldl enter inventory).IsMadeOf (read ++ more) := by
  obtain ⟨root, below, rfl, isSublist⟩ := isMade
  refine ⟨root, below ++ more, ?_, isSublist.append (List.Sublist.refl more)⟩
  rw [of, of, List.foldl_append]

end Inventory

theorem RawBody.headsAll_children (body : Option RawBody) :
    Node.headsAll (children body) = (children body).map Node.head := by
  unfold children
  split
  · rfl
  · split <;> rfl

theorem RawBody.slot?_of_mem_children {body : Option RawBody} :
    ∀ node ∈ (children body).map Node.head, node.slot? = none := by
  unfold children
  split
  · exact nofun
  · split
    · exact nofun
    · exact List.forall_mem_singleton.mpr rfl

def Component.inventory (component : Component) : Inventory :=
  ⟨component.root.toNode.heads, component.hasDefaultSlot, component.namedSlots⟩

/-- All nodes of a component below its root, every element before what is inside of it. -/
def Component.nodes (component : Component) : List NodeHead := Node.headsAll component.root.children

/-- The nodes that a component is made of are those of its tree, its root first. -/
theorem Component.inventory_eq_of_isMadeOf {component : Component} {read : List NodeHead}
    (isMade : component.inventory.IsMadeOf read) :
    component.inventory = .of (.element component.root.tag) component.nodes ∧
      (.element component.root.tag :: component.nodes).Sublist read := by
  obtain ⟨root, below, isOf, isSublist⟩ := isMade
  have nodes : component.root.toNode.heads = (Inventory.of root below).nodes :=
    congrArg Inventory.nodes isOf
  rw [Inventory.nodes_of] at nodes
  obtain ⟨rfl, rfl⟩ := List.cons.inj nodes
  exact ⟨isOf, isSublist⟩

namespace Scope

def inventory (scope : Scope) : Inventory := ⟨scope.heads, scope.hasDefaultSlot, scope.namedSlots⟩

variable (scope : Scope)

theorem inventory_append (node : Node) :
    (scope.append node).inventory = scope.inventory.append node.heads := by
  obtain ⟨hasDefaultSlot, namedSlots, -⟩ := scope.flags_append node
  rw [inventory, scope.heads_append node, hasDefaultSlot, namedSlots]
  rfl

theorem inventory_push (tag : Tag) :
    (scope.push tag).inventory = scope.inventory.append [.element tag] := by
  rw [inventory, scope.heads_push tag]
  rfl

/-- Only a slot is noted. -/
theorem inventory_note (tag : Tag) :
    (if tag.name == "slot" then scope.recordSlot tag else scope).inventory =
      scope.inventory.note (.element tag) := by
  unfold Inventory.note NodeHead.slotName? NodeHead.isDefaultSlot
  rw [NodeHead.slot?]
  cases tag.name == "slot" with
  | true =>
      rw [if_pos rfl, if_pos rfl, inventory, heads, scope.elements_recordSlot tag, recordSlot]
      cases unnamed : tag.nonemptyValue? "name" with
      | none => simp [inventory, heads, unnamed]
      | some name => simp [inventory, heads, unnamed]
  | false =>
      rw [if_neg Bool.false_ne_true, if_neg Bool.false_ne_true]
      simp [inventory]

theorem inventory_closeMany (count : Nat) :
    (closeMany count scope).inventory = scope.inventory := by
  induction count generalizing scope with
  | zero => rfl
  | succ count ih =>
      obtain ⟨hasDefaultSlot, namedSlots, -⟩ := scope.flags_closeInnermost
      rw [closeMany, ih, inventory, scope.heads_closeInnermost, hasDefaultSlot, namedSlots]
      rfl

/-- A finished component has the inventory of its scope. -/
theorem inventory_toComponent : scope.toComponent.inventory = scope.inventory := by
  have closed := scope.inventory_closeMany scope.nested.length
  rw [inventory, Inventory.mk.injEq] at closed
  obtain ⟨-, hasDefaultSlot, namedSlots⟩ := closed
  rw [Component.inventory, scope.heads_toComponent]
  exact congrArg₂ (Inventory.mk scope.heads) hasDefaultSlot namedSlots

end Scope

/-- The nodes that an opening tag and its raw body bring, unless the element is collected. -/
def OpeningTag.nodesRead (opening : OpeningTag) (body : Option RawBody) : List NodeHead :=
  if opening.staysInTree body then .element opening.tag :: (RawBody.children body).map Node.head
  else if opening.tag.componentName?.isSome then [.element opening.tag]
  else []

namespace Assembly

variable {assembly next : Assembly} {opening : OpeningTag} {body : Option RawBody}

/-- The inventories of all components, open or not, are as they have to be. -/
structure HasInventories (Holds : Inventory → Prop) (assembly : Assembly) : Prop where
  main : Holds assembly.main.inventory
  inline : ∀ opened ∈ assembly.inline, Holds opened.2.inventory
  closed : ∀ {name component}, (name, some component) ∈ assembly.components.entries →
    Holds component.inventory

namespace HasInventories

variable {Holds Holds' : Inventory → Prop}

theorem imp (has : assembly.HasInventories Holds)
    (weaker : ∀ inventory, Holds inventory → Holds' inventory) :
    assembly.HasInventories Holds' where
  main := weaker _ has.main
  inline opened isOpen := weaker _ (has.inline opened isOpen)
  closed member := weaker _ (has.closed member)

theorem current (has : assembly.HasInventories Holds) : Holds assembly.current.inventory := by
  rcases assembly with ⟨main, inline, components, buckets, imports⟩
  cases inline with
  | nil => exact has.main
  | cons opened outer => exact has.inline opened List.mem_cons_self

/-- Only the innermost inventory changes. -/
theorem modifyCurrent (has : assembly.HasInventories Holds) {change : Scope → Scope}
    (changes : Holds (change assembly.current).inventory) :
    (assembly.modifyCurrent change).HasInventories Holds := by
  rcases assembly with ⟨main, inline, components, buckets, imports⟩
  cases inline with
  | nil => exact ⟨changes, nofun, has.closed⟩
  | cons opened outer =>
      refine ⟨has.main, List.forall_mem_cons.mpr ⟨changes, fun opened isOuter => ?_⟩, has.closed⟩
      exact has.inline opened (.tail _ isOuter)

theorem closeScope (has : assembly.HasInventories Holds) :
    assembly.closeScope.HasInventories Holds := by
  rcases assembly with ⟨main, inline, components, buckets, imports⟩
  cases inline with
  | nil => exact has
  | cons opened outer =>
      refine ⟨has.main, fun opened isOuter => has.inline opened (.tail _ isOuter),
        fun {name component} member => ?_⟩
      rcases NameMap.mem_entries_insert_iff.mp member with ⟨-, same⟩ | ⟨-, member⟩
      · cases same
        rw [opened.2.inventory_toComponent]
        exact has.inline opened List.mem_cons_self
      · exact has.closed member

theorem closeScopes (has : assembly.HasInventories Holds) (count : Nat) :
    (closeScopes count assembly).HasInventories Holds := by
  induction count generalizing assembly with
  | zero => exact has
  | succ count ih => exact ih has.closeScope

theorem closeWithin (has : assembly.HasInventories Holds) {closing : ClosingTag}
    {scopes : List (String × Scope)} (closes : closeWithin closing scopes assembly = .ok next) :
    next.HasInventories Holds := by
  obtain ⟨count, depth, rfl⟩ := exists_of_closeWithin closes
  have has := has.closeScopes count
  refine has.modifyCurrent ?_
  rw [Scope.inventory_closeMany]
  exact has.current

theorem openComponent (has : assembly.HasInventories Holds) {name : String}
    (isNew : Holds (.ofRoot (.element opening.tag)))
    (opens : assembly.openComponent name opening = .ok next) : next.HasInventories Holds := by
  unfold Assembly.openComponent at opens
  split at opens
  · cases opens
  · have opened : HasInventories Holds { assembly with
        inline := (name, .ofRoot opening.tag) :: assembly.inline
        components := assembly.components.insert name none } := by
      refine ⟨has.main, List.forall_mem_cons.mpr ⟨isNew, has.inline⟩, fun member => ?_⟩
      rcases NameMap.mem_entries_insert_iff.mp member with ⟨-, same⟩ | ⟨-, member⟩
      · cases same
      · exact has.closed member
    cases opens
    split
    · exact opened.closeScope
    · exact opened

variable {read : List NodeHead}

/-- New nodes are entered into the innermost inventory. -/
theorem enter (has : assembly.HasInventories (Inventory.IsMadeOf read)) (more : List NodeHead)
    {change : Scope → Scope}
    (enters : (change assembly.current).inventory = more.foldl .enter assembly.current.inventory) :
    (assembly.modifyCurrent change).HasInventories (Inventory.IsMadeOf (read ++ more)) := by
  refine (has.imp fun inventory isMade => isMade.append_read more).modifyCurrent ?_
  rw [enters]
  exact has.current.enter more

/-- An element that is collected leaves the inventories as they are, unless it stays in the tree. -/
theorem place (has : assembly.HasInventories (Inventory.IsMadeOf read))
    (isPlaced : opening.tag.name == "link" || TagName.hasForeignBody opening.tag.name) :
    (assembly.place opening.tag body).HasInventories
      (Inventory.IsMadeOf (read ++ opening.nodesRead body)) := by
  have stays : opening.staysInTree body = (Destination.ofElement opening.tag body == .tree) :=
    if_pos isPlaced
  have notSlot : (NodeHead.element opening.tag).slot? = none := by
    refine if_neg fun isSlot => ?_
    rw [beq_iff_eq.mp isSlot] at isPlaced
    cases isPlaced
  unfold Assembly.place OpeningTag.nodesRead
  rw [stays, componentName?_of_place isPlaced]
  have unchanged {kept : Assembly} (has : kept.HasInventories (Inventory.IsMadeOf read)) :
      kept.HasInventories (Inventory.IsMadeOf (read ++ [])) := by
    rwa [List.append_nil]
  cases Destination.ofElement opening.tag body with
  | tree =>
      refine has.enter _ ?_
      rw [Scope.inventory_append, Node.heads, RawBody.headsAll_children]
      refine (Inventory.foldl_enter_of_no_slot ?_).symm
      exact List.forall_mem_cons.mpr ⟨notSlot, RawBody.slot?_of_mem_children⟩
  | propTypes text => exact unchanged (has.modifyCurrent has.current)
  | _ => exact unchanged ⟨has.main, has.inline, has.closed⟩

theorem addElement (has : assembly.HasInventories (Inventory.IsMadeOf read)) (opening : OpeningTag)
    (body : Option RawBody) :
    (assembly.addElement opening body).HasInventories
      (Inventory.IsMadeOf
        (read ++ .element opening.tag :: (RawBody.children body).map Node.head)) := by
  have isNoted : (if opening.tag.name == "slot" then
      assembly.modifyCurrent (·.recordSlot opening.tag) else assembly) = assembly.modifyCurrent fun scope =>
        if opening.tag.name == "slot" then scope.recordSlot opening.tag else scope := by
    split
    · rfl
    · exact assembly.modifyCurrent_self.symm
  unfold Assembly.addElement
  rw [isNoted]
  dsimp only
  split
  · unfold addClosed
    rw [modifyCurrent_modifyCurrent]
    refine has.enter _ ?_
    rw [Scope.inventory_append, Scope.inventory_note, Node.heads, RawBody.headsAll_children]
    exact Inventory.append_note RawBody.slot?_of_mem_children
  · next isOpened =>
      have noBody : body = none := by
        cases body with
        | none => rfl
        | some body => simp at isOpened
      rw [modifyCurrent_modifyCurrent, noBody]
      refine has.enter _ ?_
      rw [Scope.inventory_push, Scope.inventory_note]
      exact Inventory.append_note nofun

theorem openTag (has : assembly.HasInventories (Inventory.IsMadeOf read))
    (opens : assembly.openTag opening body = .ok next) :
    next.HasInventories (Inventory.IsMadeOf (read ++ opening.nodesRead body)) := by
  unfold Assembly.openTag at opens
  split at opens
  · next isPlaced =>
      cases opens
      exact has.place isPlaced
  · next notPlaced =>
      have stays : opening.staysInTree body = opening.tag.componentName?.isNone :=
        if_neg notPlaced
      unfold OpeningTag.nodesRead
      rw [stays]
      split at opens
      · next name declares =>
          rw [declares]
          refine (has.imp fun inventory isMade => isMade.append_read _).openComponent ?_ opens
          exact Inventory.isMadeOf_ofRoot _ _
      · next notComponent =>
          cases opens
          rw [notComponent]
          exact has.addElement opening body

end HasInventories

end Assembly

namespace Turn

/-- The nodes that a turn reads: what remains of its text run, and the element of its tag with its raw
body. -/
def nodesRead (turn : Turn) : List NodeHead :=
  turn.text ++ (turn.opening?.map fun start => start.1.nodesRead start.2).getD []

variable {turn next : Turn} {read : List NodeHead}

theorem hasInventories_withText (has : turn.assembly.HasInventories (Inventory.IsMadeOf read)) :
    turn.withText.HasInventories (Inventory.IsMadeOf (read ++ turn.text)) := by
  rw [withText_eq, text]
  split
  · rwa [List.append_nil]
  · refine has.enter _ ?_
    rw [Scope.inventory_append]
    exact (Inventory.foldl_enter_of_no_slot (List.forall_mem_singleton.mpr rfl)).symm

theorem hasInventories_next? (has : turn.assembly.HasInventories (Inventory.IsMadeOf read))
    (follows : turn.next? = some next) :
    next.assembly.HasInventories (Inventory.IsMadeOf (read ++ turn.nodesRead)) := by
  have has := hasInventories_withText has
  unfold nodesRead
  rw [← List.append_assoc]
  rcases next?_cases follows with ⟨opening, body, isTag, opens, -⟩ | ⟨closing, noTag, closes, -⟩
  · rw [isTag]
    exact has.openTag opens
  · rw [noTag, Option.map_none, Option.getD_none, List.append_nil]
    exact has.closeWithin closes

theorem hasInventories_foldlM {final : Assembly}
    (has : turn.assembly.HasInventories (Inventory.IsMadeOf read))
    (run : turn.place.tokens.foldlM Assembly.step turn.assembly = .ok final) :
    final.HasInventories (Inventory.IsMadeOf (read ++ turn.onwards.flatMap nodesRead)) := by
  fun_induction onwards turn generalizing read with
  | case1 turn isLast =>
      rcases next?_of_foldlM run with ⟨-, noTag, rfl⟩ | ⟨next, follows, -⟩
      · simpa [nodesRead, noTag] using hasInventories_withText has
      · cases isLast.symm.trans follows
  | case2 turn next follows ih =>
      rcases next?_of_foldlM run with ⟨isLast, -, -⟩ | ⟨next', follows', later⟩
      · cases isLast.symm.trans follows
      · cases follows.symm.trans follows'
        rw [List.flatMap_cons, ← List.append_assoc]
        exact ih (hasInventories_next? has follows) later

end Turn

namespace Template

variable {source : String} {start : Position} {sourcePath : Option String} {template : Template}

/-- All nodes that are read, the root of the file's own markup first. -/
def nodesRead (source : String) (start : Position) : List NodeHead :=
  .element (.bare "" start) :: (turns source start).flatMap Turn.nodesRead

/-- Each component is made of nodes in the order in which they have been read. -/
theorem isMadeOf_nodesRead (isParsed : parse source start sourcePath = .ok template) :
    ∀ component ∈ template.components, component.inventory.IsMadeOf (nodesRead source start) := by
  obtain ⟨final, run, rfl⟩ := exists_run isParsed
  have isInitial : (Turn.initial source start).assembly.HasInventories
      (Inventory.IsMadeOf [.element (.bare "" start)]) :=
    ⟨Inventory.isMadeOf_ofRoot [] _, nofun, nofun⟩
  have has := (Turn.hasInventories_foldlM isInitial run).closeScopes final.inline.length
  intro component isComponent
  rcases List.mem_cons.mp isComponent with rfl | isInline
  · rw [Assembly.finish, Scope.inventory_toComponent]
    exact has.main
  · obtain ⟨entry, isEntry, rfl⟩ := List.mem_map.mp isInline
    exact has.closed (NameMap.mem_filterEntries_id.mp isEntry)

theorem tag_root_main (isParsed : parse source start sourcePath = .ok template) :
    template.main.root.tag = .bare "" start := by
  obtain ⟨last, isLast, -, rfl⟩ := exists_last_turn isParsed
  obtain ⟨arena, represents⟩ := exists_represents_turn isLast
  have records := (Turn.represents_withText represents).records.closeScopes
    last.withText.inline.length
  obtain ⟨tag, isRoot, told⟩ := records.main
  rw [← Scope.heads_toComponent] at told
  exact (NodeHead.element.inj (List.cons.inj told).1).trans isRoot

/-- The nodes of a component are read in turns. -/
theorem nodes_sublist (isParsed : parse source start sourcePath = .ok template)
    {component : Component} (isComponent : component ∈ template.components) :
    component.nodes.Sublist ((turns source start).flatMap Turn.nodesRead) := by
  obtain ⟨-, isSublist⟩ :=
    Component.inventory_eq_of_isMadeOf (isMadeOf_nodesRead isParsed component isComponent)
  rcases List.sublist_cons_iff.mp isSublist with isSublist | ⟨rest, same, isSublist⟩
  · exact (List.sublist_cons_self _ _).trans isSublist
  · exact (List.cons.inj same).2 ▸ isSublist

/-- So is the root of an inline component. -/
theorem root_sublist (isParsed : parse source start sourcePath = .ok template)
    {component : Component} (isInline : component ∈ template.inlineComponents.values) :
    (.element component.root.tag :: component.nodes).Sublist
      ((turns source start).flatMap Turn.nodesRead) := by
  obtain ⟨-, isSublist⟩ := Component.inventory_eq_of_isMadeOf
    (isMadeOf_nodesRead isParsed component (List.mem_cons_of_mem _ isInline))
  rcases List.sublist_cons_iff.mp isSublist with isSublist | ⟨rest, same, -⟩
  · exact isSublist
  · -- The root of an inline component is a `template` element, so it is not the main root.
    obtain ⟨⟨name, _⟩, isEntry, rfl⟩ := List.mem_map.mp isInline
    have isTemplate :=
      FlatAssembly.name_of_componentName?_eq_some (componentName?_root isParsed isEntry)
    have noName : ("" : String) ≠ "template" := by decide
    rw [NodeHead.element.inj (List.cons.inj same).1] at isTemplate
    exact absurd isTemplate noName

end Template

end TemplateMarkup
