import TemplateMarkup.Proofs.Arena.Simulation
import TemplateMarkup.Proofs.Markup.Passage

/-!
# No node is lost or duplicated

At any time the elements that have not been moved out make up one tree for each open scope.  Each of
them has one parent, which is before it, or is the root of a scope.  So every tree can be built, and
when all of them have been built, every node that has been appended is in the tree of the component
it was appended to.
-/

namespace TemplateMarkup

namespace Arena

/-- The states on the way through a source, those between the closing of two scopes included. -/
inductive Reachable (start : Position) : Arena → Prop where
  | initial : Reachable start (initial start)
  | step {arena next : Arena} {token : Token} (reachable : Reachable start arena)
      (steps : arena.step token = .ok next) : Reachable start next
  | closeScope {arena next : Arena} (reachable : Reachable start arena)
      (closes : arena.closeScope = .ok next) : Reachable start next

/-- The numbers of all elements that are children, as often as they are. -/
def childIds (arena : Arena) : List Nat := arena.slots.flatMap Slot.childIds

/-- The elements of an arena make up one tree for each open scope. -/
structure IsForest (arena : Arena) : Prop where
  /-- What a scope holds is there and has not been moved out. -/
  holds : ∀ scope ∈ arena.scopes, ∀ id ∈ scope.elements,
    ∃ slot, arena.slots[id]? = some slot ∧ slot.isTaken = false
  /-- The same for every child. -/
  holdsChild : ∀ id ∈ arena.childIds, ∃ slot, arena.slots[id]? = some slot ∧ slot.isTaken = false
  /-- No element is a child twice. -/
  distinct : arena.childIds.Nodup
  /-- Children are later than their parents. -/
  later : ∀ id (slot : Slot), arena.slots[id]? = some slot → ∀ child ∈ slot.childIds, id < child
  /-- A root is nobody's child. -/
  isRoot : ∀ scope ∈ arena.scopes, scope.root ∉ arena.childIds
  /-- Each open element is a child of the one around it, and the outermost one is a child of the
  root. -/
  isChain : ∀ scope ∈ arena.scopes,
    scope.elements.IsChain fun inner holder => inner ∈ childIdsAt arena.slots holder
  /-- The tree of each scope can be built. -/
  builds : ∀ scope ∈ arena.scopes,
    (build? arena.slots.length scope.root arena.slots).isSome

/-- A template has all nodes that have been appended, each of them in the tree of its component and
in the order of the tree.  Nothing in it has the empty name that stands in for a missing element,
except for the root of the file's own markup. -/
structure HasNodesOf (start : Position) (template : Template) (arena : Arena) : Prop where
  main : template.main.root.toNode.heads = .element (.bare "" start) :: arena.appendedTo none
  inline : ∀ name component, (name, component) ∈ template.inlineComponents.entries →
    ∃ tag, tag.componentName? = some name ∧
      component.root.toNode.heads = .element tag :: arena.appendedTo (some name)
  isOwned : ∀ entry ∈ arena.appended, ∀ name ∈ entry.1, name ∈ template.inlineComponents.names
  isNamed : ∀ entry ∈ arena.appended, ∀ tag, entry.2 = .element tag → tag.name ≠ ""

section

variable {slots : List Slot} {ids : List Nat}

theorem flatMap_childIds_eq (slots : List Slot) :
    slots.flatMap Slot.childIds = (List.range slots.length).flatMap (childIdsAt slots) := by
  have places : slots.map Slot.childIds = (List.range slots.length).map (childIdsAt slots) := by
    apply List.ext_getElem
    · simp
    · intro id inside inside'
      rw [List.length_map] at inside
      simp [childIdsAt, List.getElem?_eq_getElem inside]
  rw [List.flatMap_def, places, List.flatMap_def]

/-- What has been moved out has no children any more. -/
theorem Occupies.perm (occupies : Occupies slots ids) (inside : ∀ id ∈ ids, id < slots.length) :
    (slots.flatMap Slot.childIds).Perm (ids.flatMap (childIdsAt slots)) := by
  have others : ((List.range slots.length).filter fun id => !decide (id ∈ ids)).flatMap
      (childIdsAt slots) = [] := by
    rw [List.flatMap_eq_nil_iff]
    intro id isOther
    obtain ⟨inRange, notHere⟩ := List.mem_filter.mp isOther
    have isSlot := List.getElem?_eq_getElem (List.mem_range.mp inRange)
    have isVacated := (occupies.covers isSlot).resolve_left (by simpa using notHere)
    rw [childIdsAt, isSlot, isVacated]
    rfl
  have these : ((List.range slots.length).filter fun id => decide (id ∈ ids)).Perm ids := by
    rw [List.perm_ext_iff_of_nodup (List.nodup_range.filter _) occupies.distinct]
    intro id
    rw [List.mem_filter, List.mem_range, decide_eq_true_iff]
    exact and_iff_right_of_imp (inside id)
  rw [flatMap_childIds_eq]
  refine ((List.filter_append_perm (fun id => decide (id ∈ ids)) _).symm.flatMap_right _).trans ?_
  rw [List.flatMap_append, others, List.append_nil]
  exact these.flatMap_right _

theorem StoresOpen.isChain {inner : Option Nat} {outer : List Nat} {around : List OpenElement}
    (stores : StoresOpen slots inner outer around ids) :
    outer.IsChain fun inner holder => inner ∈ childIdsAt slots holder := by
  induction stores with
  | nil => exact .nil
  | @cons inner id tag children latest inside ids outer around _ _ _ later ih =>
      cases later with
      | nil => exact .singleton id
      | @cons _ holder tag' children' _ _ _ outer _ _ isHolder _ _ =>
          refine .cons_cons ?_ ih
          rw [childIdsAt, isHolder]
          show id ∈ (Slot.of tag' (children' ++ ((some id).map Child.element).toList)).childIds
          rw [childIds_open]
          exact List.mem_append_right _ List.mem_cons_self

end

theorem Reachable.exists_represents {start : Position} {arena : Arena}
    (reachable : Reachable start arena) : ∃ assembly, Represents start arena assembly := by
  induction reachable with
  | initial => exact ⟨.initial start, represents_initial start⟩
  | @step arena next token _ steps ih =>
      obtain ⟨assembly, represents⟩ := ih
      have agree := represents.step token
      rw [steps] at agree
      obtain ⟨assembly', -, represents'⟩ := agree.exists_right
      exact ⟨assembly', represents'⟩
  | @closeScope arena next _ closes ih =>
      obtain ⟨assembly, represents⟩ := ih
      obtain ⟨closed, closes', -, represents'⟩ := represents.exists_closeScope
      cases closes.symm.trans closes'
      exact ⟨assembly.closeScope, represents'⟩

theorem Represents.isForest {start : Position} {arena : Arena} {assembly : Assembly}
    (represents : Represents start arena assembly) : arena.IsForest := by
  obtain ⟨ids, represent, occupies⟩ := represents.scopes
  have holds := represent.holds
  have children := occupies.perm holds.lt_length
  have perm := (children.append_right _).trans represent.perm
  have distinct := perm.nodup_iff.mpr occupies.distinct
  obtain ⟨distinctChildren, -, apart⟩ := List.nodup_append.mp distinct
  have isThere {id : Nat} (isHere : id ∈ ids) :
      ∃ slot, arena.slots[id]? = some slot ∧ slot.isTaken = false := by
    obtain ⟨slot, isSlot, notTaken, -⟩ := holds id isHere
    exact ⟨slot, isSlot, notTaken⟩
  exact
    { holds := by
        intro scope isOpen id isElement
        obtain ⟨original, inside, isScope, isPart⟩ := represent.exists_represents isOpen
        exact isThere (isPart.subset (isScope.stores.mem_of_mem isElement))
      holdsChild := fun id isChild => isThere (perm.mem_iff.mp (List.mem_append_left _ isChild))
      distinct := distinctChildren
      later := by
        intro id slot isSlot child isChild
        rcases occupies.covers isSlot with isHere | rfl
        · obtain ⟨_, isSlot', -, later⟩ := holds id isHere
          cases isSlot.symm.trans isSlot'
          exact later child isChild
        · cases isChild
      isRoot := fun scope isOpen isChild =>
        apart _ isChild _ (List.mem_map_of_mem isOpen) rfl
      isChain := by
        intro scope isOpen
        obtain ⟨original, inside, isScope, -⟩ := represent.exists_represents isOpen
        exact isScope.stores.isChain
      builds := by
        intro scope isOpen
        obtain ⟨original, inside, isScope, isPart⟩ := represent.exists_represents isOpen
        obtain ⟨moved, -, built, -⟩ := isScope.build?_eq (isPart.nodup occupies.distinct)
        rw [built]
        rfl }

theorem Records.hasNodesOf {start : Position} {arena : Arena} {assembly : Assembly}
    (records : Records start arena.appended assembly) (sourcePath : Option String)
    (areNamed : ∀ entry ∈ arena.appended, ∀ tag, entry.2 = .element tag → tag.name ≠ "") :
    HasNodesOf start (assembly.finish sourcePath) arena := by
  have records := records.closeScopes assembly.inline.length
  obtain ⟨noneOpen, -⟩ := assembly.inline_closeScopes assembly.inline rfl
  unfold Assembly.finish
  generalize Assembly.closeScopes assembly.inline.length assembly = closed at records noneOpen
  have valued (name : String) : (name, none) ∉ closed.components.entries := by
    intro member
    have isOpen := (records.isOpen name).mp member
    rw [noneOpen] at isOpen
    cases isOpen
  have entries := NameMap.filterEntries_id placeholder valued
  refine ⟨?_, fun name component member => ?_, fun entry member name isName => ?_, areNamed⟩
  · obtain ⟨tag, rfl, told⟩ := records.main
    exact closed.main.heads_toComponent.trans told
  · exact records.closed (NameMap.mem_filterEntries_id.mp member)
  · have isDeclared := records.declared entry member name isName
    show name ∈ (NameMap.filterEntries id closed.components.entries).map Prod.fst
    rw [entries, List.map_map]
    exact isDeclared

section

variable {arena next : Arena}

theorem appended_modifyCurrent (arena : Arena) (change : Scope → Scope) :
    (arena.modifyCurrent change).appended = arena.appended := by
  unfold modifyCurrent
  split <;> rfl

theorem currentName_modifyCurrent (arena : Arena) (change : Scope → Scope) :
    (arena.modifyCurrent change).currentName = arena.currentName := by
  unfold modifyCurrent currentName
  split
  · rfl
  · next isOpen => rw [isOpen]; rfl

theorem record_nil (arena : Arena) : arena.record [] = arena.appended :=
  List.append_nil _

theorem appended_closeScope (closes : arena.closeScope = .ok next) :
    next.appended = arena.appended := by
  unfold closeScope at closes
  split at closes
  · cases closes
    rfl
  · split at closes
    · cases closes
    · cases closes
      rfl

theorem appended_closeWithin {closing : ClosingTag} {scopes : List (String × Scope)}
    (closes : closeWithin closing scopes arena = .ok next) : next.appended = arena.appended := by
  induction scopes generalizing arena with
  | nil =>
      unfold closeWithin at closes
      split at closes
      · cases closes
        exact appended_modifyCurrent _ _
      · cases closes
  | cons opened outer ih =>
      unfold closeWithin at closes
      split at closes
      · cases closes
        exact appended_modifyCurrent _ _
      · split at closes
        · exact appended_closeScope closes
        · cases closesFirst : arena.closeScope with
          | error halt =>
              rw [closesFirst] at closes
              cases closes
          | ok closed =>
              rw [closesFirst] at closes
              exact (ih closes).trans (appended_closeScope closesFirst)

/-- What is inside a raw body is no element. -/
theorem eq_of_mem_heads {tag other : Tag} {body : Option RawBody}
    (member : .element other ∈ (Node.element tag (RawBody.children body)).heads) : other = tag := by
  rcases List.mem_cons.mp member with same | isInside
  · cases same
    rfl
  · unfold RawBody.children at isInside
    split at isInside
    · cases isInside
    · split at isInside
      · cases isInside
      · rcases List.mem_cons.mp isInside with same | isInside
        · cases same
        · cases isInside

theorem exists_appended_place (arena : Arena) (tag : Tag) (body : Option RawBody) :
    ∃ heads, (arena.place tag body).appended = arena.record heads ∧
      ∀ other, .element other ∈ heads → other = tag := by
  unfold place
  cases Destination.ofElement tag body with
  | tree => exact ⟨_, rfl, fun _ => eq_of_mem_heads⟩
  | propTypes text => exact ⟨[], (appended_modifyCurrent _ _).trans arena.record_nil.symm, nofun⟩
  | _ => exact ⟨[], arena.record_nil.symm, nofun⟩

theorem appended_openComponent {name : String} {opening : OpeningTag}
    (opens : arena.openComponent name opening = .ok next) : next.appended = arena.appended := by
  unfold openComponent at opens
  split at opens
  · cases opens
  · split at opens
    · exact (appended_closeScope opens :)
    · cases opens
      rfl

theorem exists_appended_addElement (arena : Arena) (opening : OpeningTag) (body : Option RawBody) :
    ∃ heads, (arena.addElement opening body).appended = arena.record heads ∧
      ∀ other, .element other ∈ heads → other = opening.tag := by
  unfold addElement
  dsimp only
  obtain ⟨noted, isNoted, recorded⟩ : ∃ noted, noted =
      (if opening.tag.name == "slot" then arena.modifyCurrent (·.recordSlot opening.tag)
        else arena) ∧
        ∀ heads, noted.record heads = arena.record heads := by
    refine ⟨_, rfl, fun heads => ?_⟩
    split
    · rw [record, appended_modifyCurrent, currentName_modifyCurrent, record]
    · rfl
  rw [← isNoted]
  split
  · exact ⟨_, recorded _, fun _ => eq_of_mem_heads⟩
  · refine ⟨[.element opening.tag], (appended_modifyCurrent _ _).trans (recorded _), ?_⟩
    intro other member
    cases List.mem_singleton.mp member
    rfl

/-- A token appends nodes to the innermost component only, and no element but its own. -/
theorem exists_appended_step {token : Token} (steps : arena.step token = .ok next) :
    ∃ heads, next.appended = arena.record heads ∧
      ∀ tag, .element tag ∈ heads →
        ∃ opening body, token = .opening opening body ∧ opening.tag = tag := by
  cases token with
  | text run =>
      cases steps
      unfold addText
      dsimp only
      generalize (if arena.keepsWhitespace = true then run.text else _) = text
      split
      · exact ⟨[], arena.record_nil.symm, nofun⟩
      · exact ⟨_, rfl, by simp⟩
  | closing closing => exact ⟨[], (appended_closeWithin steps).trans arena.record_nil.symm, nofun⟩
  | opening opening body =>
      have own {heads : List NodeHead} (isOwn : ∀ tag, .element tag ∈ heads → tag = opening.tag) :
          ∀ tag, .element tag ∈ heads → ∃ opening' body',
            Token.opening opening body = .opening opening' body' ∧ opening'.tag = tag :=
        fun tag member => ⟨opening, body, rfl, (isOwn tag member).symm⟩
      simp only [step, openTag] at steps
      split at steps
      · cases steps
        obtain ⟨heads, appended, isOwn⟩ := exists_appended_place arena opening.tag body
        exact ⟨heads, appended, own isOwn⟩
      · split at steps
        · exact ⟨[], (appended_openComponent steps).trans arena.record_nil.symm, nofun⟩
        · cases steps
          obtain ⟨heads, appended, isOwn⟩ := exists_appended_addElement arena opening body
          exact ⟨heads, appended, own isOwn⟩

theorem isNamed_foldlM {tokens : List Token} (run : tokens.foldlM step arena = .ok next)
    (tokensAreNamed : ∀ opening body, .opening opening body ∈ tokens → opening.tag.name ≠ "")
    (areNamed : ∀ entry ∈ arena.appended, ∀ tag, entry.2 = .element tag → tag.name ≠ "") :
    ∀ entry ∈ next.appended, ∀ tag, entry.2 = .element tag → tag.name ≠ "" := by
  refine holds_of_foldlM
    (fun state => ∀ entry ∈ state.appended, ∀ tag, entry.2 = .element tag → tag.name ≠ "")
    areNamed ?_ run
  intro token isRead arena later steps areNamed entry member tag isElement
  obtain ⟨heads, appended, isOwn⟩ := exists_appended_step steps
  rw [appended, record] at member
  rcases List.mem_append.mp member with isOld | isNew
  · exact areNamed entry isOld tag isElement
  · obtain ⟨head, isHead, rfl⟩ := List.mem_map.mp isNew
    obtain ⟨opening, body, rfl, rfl⟩ := isOwn tag (isElement ▸ isHead)
    exact tokensAreNamed opening body isRead

end

end Arena

/-- Assembly in an arena is assembly.  All the while the elements in it make up a forest, and the
template that comes out has all nodes that have been appended, each of them once and in its
component. -/
theorem Template.parse_keepsNodes (source : String) (start : Position) (sourcePath : Option String) :
    Arena.parse source start sourcePath = (parse source start sourcePath).mapError .fault ∧
      (∀ arena, Arena.Reachable start arena → arena.IsForest) ∧
      ∀ template, parse source start sourcePath = .ok template →
        ∃ arena, (Token.scan source start).foldlM Arena.step (.initial start) = .ok arena ∧
          Arena.HasNodesOf start template arena := by
  refine ⟨Arena.parse_eq_mapError source start sourcePath, fun arena reachable => ?_,
    fun template isTemplate => ?_⟩
  · obtain ⟨assembly, represents⟩ := reachable.exists_represents
    exact represents.isForest
  · have agree := (Arena.represents_initial start).foldlM (Token.scan source start)
    unfold parse ofTokens at isTemplate
    cases run : (Token.scan source start).foldlM Assembly.step (.initial start) with
    | error error =>
        rw [run] at isTemplate
        cases isTemplate
    | ok assembly =>
        rw [run] at isTemplate agree
        cases isTemplate
        obtain ⟨arena, run', represents⟩ := agree.exists_left
        refine ⟨arena, run', represents.records.hasNodesOf sourcePath ?_⟩
        refine Arena.isNamed_foldlM run' (fun opening body member => ?_) nofun
        exact Cursor.name_ne_of_mem_tokens member

end TemplateMarkup
