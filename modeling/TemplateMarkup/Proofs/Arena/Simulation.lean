import TemplateMarkup.Proofs.Arena.Record
import TemplateMarkup.Proofs.Arena.Representation
import TemplateMarkup.Proofs.Assembly.FlatStack
import TemplateMarkup.Proofs.Document.Rewording

/-!
# Assembly in an arena is assembly

Every step of an arena is a step of the assembly that it stands for.  The places of the arena are
those of the elements of the open scopes, each of them once, and places whose elements have been
moved out.
-/

namespace TemplateMarkup

theorem NameMap.entries_insert_map {α β : Type} {change : α → β} {map : NameMap α}
    {map' : NameMap β}
    (same : map'.entries = map.entries.map (Prod.map id change)) (name : String) (value : α) :
    (map'.insert name (change value)).entries =
      (map.insert name value).entries.map (Prod.map id change) := by
  have names : map'.entries.map Prod.fst = map.entries.map Prod.fst := by
    rw [same, List.map_map]
    rfl
  by_cases absent : name ∉ map.entries.map Prod.fst
  · have absent' : name ∉ map'.entries.map Prod.fst := names ▸ absent
    simp only [insert, dif_pos absent, dif_pos absent']
    rw [same, List.map_append]
    rfl
  · have present' : ¬ name ∉ map'.entries.map Prod.fst := names ▸ absent
    simp only [insert, dif_neg absent, dif_neg present', replaceIn]
    rw [same, List.map_map, List.map_map]
    apply List.map_congr_left
    intro entry _
    by_cases isName : entry.1 = name
    · simp [isName]
    · simp [isName]

theorem NameMap.filterEntries_id {α : Type} (default : α) {entries : List (String × Option α)}
    (valued : ∀ name, (name, none) ∉ entries) :
    filterEntries id entries = entries.map (Prod.map id (·.getD default)) := by
  induction entries with
  | nil => rfl
  | cons entry rest ih =>
      have ih := ih fun name member => valued name (List.mem_cons_of_mem _ member)
      obtain ⟨name, _ | value⟩ := entry
      · exact absurd List.mem_cons_self (valued name)
      · rw [filterEntries, List.map_cons, ih]
        rfl

theorem NameMap.mem_filterEntries_id {α : Type} {entries : List (String × Option α)} {name : String}
    {value : α} : (name, value) ∈ filterEntries id entries ↔ (name, some value) ∈ entries := by
  induction entries with
  | nil => exact ⟨nofun, nofun⟩
  | cons entry rest ih =>
      obtain ⟨first, _ | stored⟩ := entry
      · simp [filterEntries, ih]
      · simp [filterEntries, ih]

namespace Arena

/-- An arena stands for an assembly. -/
structure Represents (start : Position) (arena : Arena) (assembly : Assembly) : Prop where
  scopes : ∃ ids,
    ScopesRepresent arena.slots arena.main assembly.main arena.inline assembly.inline ids ∧
      Occupies arena.slots ids
  components : arena.components.entries =
    assembly.components.entries.map (Prod.map id (·.getD placeholder))
  buckets : arena.buckets = assembly.buckets
  imports : arena.imports = assembly.imports
  records : Records start arena.appended assembly

theorem represents_initial (start : Position) : Represents start (initial start) (.initial start) where
  scopes := by
    refine ⟨[0], .main (.ofRoot rfl), List.nodup_singleton 0, fun {id} {slot} isSlot => .inl ?_⟩
    have inside := (List.getElem?_eq_some_iff.mp isSlot).1
    exact List.mem_singleton.mpr (Nat.lt_one_iff.mp inside)
  components := rfl
  buckets := rfl
  imports := rfl
  records := .initial start

/-- Two ways to go on come to the same: one stands for the other, or both halt with one fault. -/
def Agree (start : Position) : Except Halt Arena → Except ParseError Assembly → Prop
  | .ok arena, .ok assembly => Represents start arena assembly
  | .error halt, .error error => halt = .fault error
  | _, _ => False

section

variable {start : Position} {arena : Arena} {assembly : Assembly} {result : Except Halt Arena}
variable {result' : Except ParseError Assembly}

theorem Agree.exists_right (agree : Agree start (.ok arena) result') :
    ∃ assembly, result' = .ok assembly ∧ Represents start arena assembly := by
  cases result' with
  | ok assembly => exact ⟨assembly, rfl, agree⟩
  | error error => exact agree.elim

theorem Agree.exists_left (agree : Agree start result (.ok assembly)) :
    ∃ arena, result = .ok arena ∧ Represents start arena assembly := by
  cases result with
  | ok arena => exact ⟨arena, rfl, agree⟩
  | error halt => exact agree.elim

theorem Agree.bind (agree : Agree start result result') {next : Arena → Except Halt Arena}
    {next' : Assembly → Except ParseError Assembly}
    (goesOn : ∀ {arena assembly}, Represents start arena assembly →
      Agree start (next arena) (next' assembly)) :
    Agree start (result >>= next) (result' >>= next') := by
  cases result with
  | ok arena =>
      obtain ⟨assembly, rfl, represents⟩ := agree.exists_right
      exact goesOn represents
  | error halt =>
      cases result' with
      | ok assembly => exact agree.elim
      | error error => exact agree

end

section

variable {slots fresh : List Slot} {parent id : Nat} {change : Slot → Slot}

theorem getElem?_grown_parent (inside : parent < slots.length) :
    ((slots ++ fresh).modify parent change)[parent]? = slots[parent]?.map change := by
  rw [List.getElem?_modify_eq, List.getElem?_append_left inside]
  rfl

theorem getElem?_grown_of_ne (inside : id < slots.length) (different : id ≠ parent) :
    ((slots ++ fresh).modify parent change)[id]? = slots[id]? := by
  rw [List.getElem?_modify_ne _ _ different.symm, List.getElem?_append_left inside]

theorem getElem?_grown_length (slot : Slot) (inside : parent < slots.length) :
    ((slots ++ [slot]).modify parent change)[slots.length]? = some slot := by
  rw [List.getElem?_modify_ne _ _ (Nat.ne_of_lt inside), List.getElem?_concat_length]

end

variable {start : Position} {arena : Arena} {assembly : Assembly}

theorem modifyCurrent_self (arena : Arena) : arena.modifyCurrent (fun scope => scope) = arena := by
  rcases arena with ⟨slots, main, inline, components, buckets, imports, appended⟩
  cases inline <;> rfl

namespace Represents

theorem currentName_eq (represents : Represents start arena assembly) :
    arena.currentName = assembly.inline.head?.map Prod.fst := by
  obtain ⟨ids, represent, -⟩ := represents.scopes
  rw [currentName, ← List.head?_map, ← List.head?_map, represent.map_fst]

theorem current (represents : Represents start arena assembly) :
    ∃ ids, arena.current.Represents arena.slots assembly.current ids := by
  obtain ⟨ids, represent, -⟩ := represents.scopes
  obtain ⟨inside, outside, -, isCurrent, -⟩ := represent.exists_current
  exact ⟨inside, isCurrent⟩

theorem contains_components (represents : Represents start arena assembly) (name : String) :
    arena.components.contains name = assembly.components.contains name := by
  unfold NameMap.contains NameMap.names
  rw [represents.components, List.map_map]
  rfl

/-- The innermost scope may be changed, its parent element and the end of the arena with it. -/
theorem modifyCurrent (represents : Represents start arena assembly) {slots : List Slot} {count : Nat}
    (change : Scope → Scope) (change' : TemplateMarkup.Scope → TemplateMarkup.Scope)
    (heads : List NodeHead) (length : slots.length = arena.slots.length + count)
    (same : ∀ id < arena.slots.length, id ≠ arena.current.parent → slots[id]? = arena.slots[id]?)
    (changes : ∀ ids, ids.Nodup → arena.current.Represents arena.slots assembly.current ids →
      ∃ ids', ids'.Perm (ids ++ List.range' arena.slots.length count) ∧
        (change arena.current).Represents slots (change' assembly.current) ids')
    (grows : (change' assembly.current).heads = assembly.current.heads ++ heads) :
    Represents start { arena.modifyCurrent change with slots, appended := arena.record heads }
      (assembly.modifyCurrent change') := by
  obtain ⟨ids, represent, occupies⟩ := represents.scopes
  have records := represents.records.modifyCurrent grows
  rw [← represents.currentName_eq] at records
  have inArena := represent.holds.lt_length
  obtain ⟨inside, outside, rfl, isCurrent, replace⟩ := represent.exists_current
  obtain ⟨distinctInside, -, apart⟩ := List.nodup_append.mp occupies.distinct
  obtain ⟨inside', perm, changed⟩ := changes inside distinctInside isCurrent
  -- The parent belongs to the innermost scope, so nothing changes at the places of the other scopes.
  have sameElsewhere : ∀ id < arena.slots.length, id ∉ inside → slots[id]? = arena.slots[id]? :=
    fun id isOld notInside => same id isOld fun isParent => notInside (isParent ▸ isCurrent.parent_mem)
  have scopes := replace changed fun id isOutside =>
    sameElsewhere id (inArena id (List.mem_append_right _ isOutside)) fun isInside =>
      apart id isInside id isOutside rfl
  have occupies' := occupies.replace inArena perm length sameElsewhere
  rcases arena with ⟨slots', main, inline, components, buckets, imports, appended⟩
  rcases assembly with ⟨main', inline', components', buckets', imports'⟩
  cases inline <;> cases inline' <;> exact
    { scopes := ⟨_, scopes, occupies'⟩
      components := represents.components
      buckets := represents.buckets
      imports := represents.imports
      records := records }

theorem parent_lt (represents : Represents start arena assembly) :
    arena.current.parent < arena.slots.length := by
  obtain ⟨ids, isCurrent⟩ := represents.current
  exact isCurrent.stores.holds.lt_length _ isCurrent.parent_mem

/-- The innermost scope may be changed in other respects than its nodes. -/
theorem modifyFlags (represents : Represents start arena assembly)
    (change : Scope → Scope) (change' : TemplateMarkup.Scope → TemplateMarkup.Scope)
    (changes : ∀ ids, arena.current.Represents arena.slots assembly.current ids →
      ∃ ids', ids'.Perm ids ∧
        (change arena.current).Represents arena.slots (change' assembly.current) ids')
    (keeps : (change' assembly.current).heads = assembly.current.heads) :
    Represents start (arena.modifyCurrent change) (assembly.modifyCurrent change') := by
  have changed := represents.modifyCurrent change change' [] (Nat.add_zero _).symm (fun _ _ _ => rfl)
    (fun ids _ isCurrent => by
      rw [List.range'_zero, List.append_nil]
      exact changes ids isCurrent)
    (keeps.trans (List.append_nil _).symm)
  have same : { arena.modifyCurrent change with
      slots := arena.slots, appended := arena.record [] } = arena.modifyCurrent change := by
    rcases arena with ⟨slots, main, inline, components, buckets, imports, appended⟩
    cases inline <;> simp [Arena.modifyCurrent, record]
  rwa [same] at changed

/-- A new node becomes the last child of the innermost element. -/
theorem append (represents : Represents start arena assembly) (fresh : List Slot) {child : Child}
    {node : Node}
    (isNode : Stores ((arena.slots ++ fresh).modify arena.current.parent (Slot.add child))
      arena.current.parent [child] [node] (List.range' arena.slots.length fresh.length)) :
    Represents start
      { arena with
        slots := (arena.slots ++ fresh).modify arena.current.parent (Slot.add child)
        appended := arena.record node.heads }
      (assembly.modifyCurrent (·.append node)) := by
  have inside := represents.parent_lt
  have same : ∀ id < arena.slots.length, id ≠ arena.current.parent →
      ((arena.slots ++ fresh).modify arena.current.parent (Slot.add child))[id]? = arena.slots[id]? :=
    fun _ inside different => getElem?_grown_of_ne inside different
  have changed := represents.modifyCurrent (fun scope => scope) (·.append node) node.heads
    (by rw [List.length_modify, List.length_append]) same
    (fun ids distinct isCurrent => isCurrent.append distinct (getElem?_grown_parent inside)
      (fun id isHere => same id (isCurrent.stores.holds.lt_length id isHere)) isNode)
    (assembly.current.heads_append node)
  rwa [modifyCurrent_self] at changed

theorem appendText (represents : Represents start arena assembly) (content : String)
    (position : Position) :
    Represents start (arena.appendText content position)
      (assembly.modifyCurrent (·.append (.text content position))) := by
  have appended := represents.append [] (.text content position (.nil _))
  rwa [List.append_nil] at appended

theorem stores_ofBody (slots : List Slot) (parent : Nat) (body : Option RawBody) :
    Stores slots parent (Child.ofBody body) (RawBody.children body) [] := by
  cases body with
  | none => exact .nil parent
  | some body =>
      rw [Child.ofBody, RawBody.children]
      split
      · exact .nil parent
      · exact .text _ _ (.nil parent)

theorem appendElement (represents : Represents start arena assembly) (tag : Tag)
    (body : Option RawBody) :
    Represents start (arena.appendElement tag body) (assembly.addClosed tag body) := by
  have inside := represents.parent_lt
  exact represents.append [Slot.of tag (Child.ofBody body)]
    (.element inside (getElem?_grown_length _ inside) (stores_ofBody _ _ body) (.nil _))

theorem openElement (represents : Represents start arena assembly) (tag : Tag) :
    Represents start (arena.openElement tag) (assembly.modifyCurrent (·.push tag)) := by
  have inside := represents.parent_lt
  have same : ∀ id < arena.slots.length, id ≠ arena.current.parent →
      (arena.appendElement tag none).slots[id]? = arena.slots[id]? :=
    fun _ inside different => getElem?_grown_of_ne inside different
  have changed := represents.modifyCurrent (·.push arena.slots.length) (·.push tag)
    [.element tag] (by rw [Arena.appendElement, List.length_modify, List.length_append]) same
    (fun ids distinct isCurrent => ⟨arena.slots.length :: ids, (List.perm_append_singleton _ _).symm,
      isCurrent.push distinct inside (getElem?_grown_parent inside)
        (fun id isHere => same id (isCurrent.stores.holds.lt_length id isHere))
        (getElem?_grown_length _ inside)⟩)
    (assembly.current.heads_push tag)
  have asOpened : { arena.modifyCurrent (·.push arena.slots.length) with
      slots := (arena.appendElement tag none).slots
      appended := arena.record [.element tag] } = arena.openElement tag := by
    rcases arena with ⟨slots, main, inline, components, buckets, imports, appended⟩
    cases inline <;> rfl
  rwa [asOpened] at changed

theorem keepsWhitespace_eq (represents : Represents start arena assembly) :
    arena.keepsWhitespace = assembly.keepsWhitespace := by
  obtain ⟨ids, represent, -⟩ := represents.scopes
  have ofScope {scope : Scope} {original : TemplateMarkup.Scope} {ids : List Nat}
      (isScope : scope.Represents arena.slots original ids) :
      (scope.opened.any fun id => TagName.keepsWhitespace (arena.tagName id)) =
        original.keepsWhitespace := by
    have names := congrArg (List.any · TagName.keepsWhitespace) isScope.map_tagName
    rwa [List.any_map, List.any_map] at names
  rw [Arena.keepsWhitespace, Assembly.keepsWhitespace, Arena.scopes, List.any_cons, List.any_map]
  generalize arena.inline = inline at represent
  generalize assembly.inline = inline' at represent
  induction represent with
  | main isMain => rw [ofScope isMain]; rfl
  | inline name isScope _ ih =>
      rw [List.any_cons, List.any_cons, Function.comp_apply, ofScope isScope, Bool.or_left_comm, ih,
        Bool.or_left_comm]

theorem addText (represents : Represents start arena assembly) (run : TextRun) :
    Represents start (arena.addText run) (assembly.addText run) := by
  obtain ⟨ids, isCurrent⟩ := represents.current
  unfold Arena.addText Assembly.addText
  rw [isCurrent.isEmpty_eq, represents.keepsWhitespace_eq]
  dsimp only
  generalize (if assembly.keepsWhitespace = true then run.text else _) = text
  split
  · exact represents
  · exact represents.appendText _ _

theorem closeMany (represents : Represents start arena assembly) (count : Nat) :
    Represents start (arena.modifyCurrent (·.closeMany count))
      (assembly.modifyCurrent (·.closeMany count)) :=
  represents.modifyFlags _ _ (fun _ isCurrent => isCurrent.closeMany count)
    (assembly.current.heads_closeMany count)

/-- The innermost component can be built, and nothing else is moved out with it. -/
theorem exists_closeScope (represents : Represents start arena assembly) :
    ∃ closed, arena.closeScope = .ok closed ∧ closed.inline = arena.inline.tail ∧
      Represents start closed assembly.closeScope := by
  obtain ⟨ids, represent, occupies⟩ := represents.scopes
  have inArena := represent.holds.lt_length
  have records := represents.records.closeScope
  have components := represents.components
  have buckets := represents.buckets
  have imports := represents.imports
  rcases arena with ⟨slots, main, inline, declared, gathered, imported, appended⟩
  rcases assembly with ⟨main', inline', components', buckets', imports'⟩
  cases represent with
  | main => exact ⟨_, rfl, rfl, represents⟩
  | @inline scope original inside outside inline inline' name isScope later =>
      obtain ⟨distinctInside, -, apart⟩ := List.nodup_append.mp occupies.distinct
      obtain ⟨moved, perm, built, component⟩ := isScope.build?_eq distinctInside
      have stays : ∀ id ∈ outside, (vacate slots moved)[id]? = slots[id]? := fun id isOutside =>
        getElem?_vacate_of_not_mem fun isMoved => apart id (perm.mem_iff.mp isMoved) id isOutside rfl
      refine ⟨⟨vacate slots moved, main, inline, declared.insert name original.toComponent,
          gathered, imported, appended⟩, ?_, rfl, ⟨outside, later.congr stays, occupies.vacate inArena perm⟩,
        NameMap.entries_insert_map components name (some original.toComponent), buckets, imports,
        records⟩
      simp only [Arena.closeScope, built, component]

theorem depthOf?_eq (represents : Represents start arena assembly) (name : String) :
    arena.depthOf? arena.current name = assembly.current.depthOf? name := by
  obtain ⟨ids, isCurrent⟩ := represents.current
  have names := congrArg (List.findIdx? (· == name)) isCurrent.map_tagName
  rw [List.findIdx?_map, List.findIdx?_map] at names
  exact congrArg (Option.map (· + 1)) names

theorem closeWithin (closing : ClosingTag) {scopes : List (String × TemplateMarkup.Scope)}
    (represents : Represents start arena assembly) (areOpen : assembly.inline = scopes) :
    Agree start (Arena.closeWithin closing arena.inline arena)
      (Assembly.closeWithin closing scopes assembly) := by
  induction scopes generalizing arena assembly with
  | nil =>
      obtain ⟨ids, represent, -⟩ := represents.scopes
      have noneOpen : arena.inline = [] := by
        rw [← List.length_eq_zero_iff, represent.length_inline, areOpen, List.length_nil]
      have depth := represents.depthOf?_eq closing.name
      rw [Arena.current, noneOpen, Assembly.current, areOpen] at depth
      rw [noneOpen, Arena.closeWithin, Assembly.closeWithin, depth]
      cases assembly.main.depthOf? closing.name with
      | none => rfl
      | some depth => exact represents.closeMany depth
  | cons opened outer ih =>
      obtain ⟨closed, closes, rest, represents'⟩ := represents.exists_closeScope
      obtain ⟨ids, represent, -⟩ := represents.scopes
      obtain ⟨opened', outer', isOpen⟩ : ∃ opened' outer', arena.inline = opened' :: outer' := by
        have length : arena.inline.length = outer.length + 1 := by
          rw [represent.length_inline, areOpen, List.length_cons]
        exact List.exists_cons_of_length_eq_add_one length
      have areLeft : assembly.closeScope.inline = outer := by rw [Assembly.closeScope, areOpen]
      have depth := represents.depthOf?_eq closing.name
      rw [Arena.current, isOpen, Assembly.current, areOpen] at depth
      rw [isOpen, Arena.closeWithin, Assembly.closeWithin, depth]
      cases opened.2.depthOf? closing.name with
      | some depth => exact represents.closeMany depth
      | none =>
          dsimp only
          split
          · rw [closes]
            exact represents'
          · -- The list that is left to search is again the list of the scopes that are open.
            rw [isOpen, List.tail_cons] at rest
            rw [closes, ← rest]
            exact ih represents' areLeft

/-- A new component gets a new place, and nothing of the others is touched. -/
theorem declare (represents : Represents start arena assembly) {name : String} {tag : Tag}
    (isNew : name ∉ assembly.components.names) (declares : tag.componentName? = some name) :
    Represents start
      { arena with
        slots := arena.slots ++ [Slot.of tag []]
        inline := (name, .ofRoot arena.slots.length) :: arena.inline
        components := arena.components.insert name placeholder }
      { assembly with
        inline := (name, .ofRoot tag) :: assembly.inline
        components := assembly.components.insert name none } := by
  obtain ⟨ids, represent, occupies⟩ := represents.scopes
  have inArena := represent.holds.lt_length
  have stays : ∀ id ∈ ids, (arena.slots ++ [Slot.of tag []])[id]? = arena.slots[id]? :=
    fun id isHere => List.getElem?_append_left (inArena id isHere)
  exact
    { scopes := ⟨_, .inline name (.ofRoot List.getElem?_concat_length) (represent.congr stays),
        occupies.append inArena _⟩
      components := NameMap.entries_insert_map represents.components name none
      buckets := represents.buckets
      imports := represents.imports
      records := represents.records.declare isNew declares }

theorem openComponent (represents : Represents start arena assembly) {name : String}
    {opening : OpeningTag} (declares : opening.tag.componentName? = some name) :
    Agree start (arena.openComponent name opening) (assembly.openComponent name opening) := by
  unfold Arena.openComponent Assembly.openComponent
  rw [represents.contains_components]
  by_cases isOld : assembly.components.contains name
  · rw [if_pos isOld, if_pos isOld]
    rfl
  · rw [if_neg isOld, if_neg isOld]
    have opened := represents.declare (fun isName => isOld (NameMap.contains_iff.mpr isName)) declares
    dsimp only
    split
    · obtain ⟨closed, closes, -, represents'⟩ := opened.exists_closeScope
      rw [closes]
      exact represents'
    · exact opened

theorem setPropTypes (represents : Represents start arena assembly) (text : String) :
    Represents start (arena.modifyCurrent fun scope => { scope with propTypes := some text })
      (assembly.modifyCurrent fun scope => { scope with propTypes := some text }) :=
  represents.modifyFlags _ _
    (fun ids isCurrent => ⟨ids, .refl ids, { isCurrent with propTypes := rfl }⟩) rfl

theorem collect (represents : Represents start arena assembly) {buckets buckets' : NameMap Bucket}
    {imports imports' : List ComponentImport} (sameBuckets : buckets = buckets')
    (sameImports : imports = imports') :
    Represents start { arena with buckets, imports }
      { assembly with buckets := buckets', imports := imports' } where
  scopes := represents.scopes
  components := represents.components
  buckets := sameBuckets
  imports := sameImports
  records := represents.records.collect buckets' imports'

theorem place (represents : Represents start arena assembly) (tag : Tag) (body : Option RawBody) :
    Represents start (arena.place tag body) (assembly.place tag body) := by
  unfold Arena.place Assembly.place
  cases Destination.ofElement tag body with
  | tree => exact represents.appendElement tag body
  | imports imported =>
      exact represents.collect represents.buckets (congrArg (· ++ [imported]) represents.imports)
  | script bucket script =>
      exact represents.collect (congrArg (NameMap.update · bucket _ _) represents.buckets)
        represents.imports
  | style bucket style =>
      exact represents.collect (congrArg (NameMap.update · bucket _ _) represents.buckets)
        represents.imports
  | propTypes text => exact represents.setPropTypes text
  | nowhere => exact represents

theorem addElement (represents : Represents start arena assembly) (opening : OpeningTag)
    (body : Option RawBody) :
    Represents start (arena.addElement opening body) (assembly.addElement opening body) := by
  have noted : Represents start
      (if opening.tag.name == "slot" then arena.modifyCurrent (·.recordSlot opening.tag) else arena)
      (if opening.tag.name == "slot" then assembly.modifyCurrent (·.recordSlot opening.tag)
        else assembly) := by
    split
    · refine represents.modifyFlags _ _
        (fun ids isCurrent => ⟨ids, .refl ids, isCurrent.recordSlot opening.tag⟩) ?_
      exact congrArg OpenElement.heads (assembly.current.elements_recordSlot opening.tag)
    · exact represents
  unfold Arena.addElement Assembly.addElement
  dsimp only
  split
  · exact noted.appendElement opening.tag body
  · exact noted.openElement opening.tag

theorem openTag (represents : Represents start arena assembly) (opening : OpeningTag)
    (body : Option RawBody) :
    Agree start (arena.openTag opening body) (assembly.openTag opening body) := by
  unfold Arena.openTag Assembly.openTag
  split
  · exact represents.place opening.tag body
  · cases declares : opening.tag.componentName? with
    | some name => exact represents.openComponent declares
    | none => exact represents.addElement opening body

theorem step (represents : Represents start arena assembly) (token : Token) :
    Agree start (arena.step token) (assembly.step token) := by
  cases token with
  | text run => exact represents.addText run
  | opening tag body => exact represents.openTag tag body
  | closing tag => exact represents.closeWithin tag rfl

theorem foldlM (represents : Represents start arena assembly) (tokens : List Token) :
    Agree start (tokens.foldlM Arena.step arena) (tokens.foldlM Assembly.step assembly) := by
  induction tokens generalizing arena assembly with
  | nil => exact represents
  | cons token rest ih =>
      rw [List.foldlM_cons, List.foldlM_cons]
      exact (represents.step token).bind ih

theorem exists_closeScopes (represents : Represents start arena assembly) (count : Nat) :
    ∃ closed, closeScopes count arena = .ok closed ∧
      Represents start closed (Assembly.closeScopes count assembly) := by
  induction count generalizing arena assembly with
  | zero => exact ⟨arena, rfl, represents⟩
  | succ count ih =>
      obtain ⟨middle, closes, -, represents'⟩ := represents.exists_closeScope
      obtain ⟨closed, closesAll, represents''⟩ := ih represents'
      refine ⟨closed, ?_, represents''⟩
      rw [closeScopes, closes]
      exact closesAll

theorem finish (represents : Represents start arena assembly) (sourcePath : Option String) :
    arena.finish sourcePath = .ok (assembly.finish sourcePath) := by
  obtain ⟨ids, represent, -⟩ := represents.scopes
  obtain ⟨closed, closes, represents'⟩ := represents.exists_closeScopes arena.inline.length
  obtain ⟨noneOpen, -⟩ := assembly.inline_closeScopes assembly.inline rfl
  rw [represent.length_inline] at represents'
  unfold Arena.finish Assembly.finish
  rw [closes]
  generalize Assembly.closeScopes assembly.inline.length assembly = closed' at represents' noneOpen
  have components : closed.components = closed'.components.filterMap id := by
    apply NameMap.eq_of_entries
    rw [represents'.components]
    refine (NameMap.filterEntries_id placeholder fun name member => ?_).symm
    have isOpen := (represents'.records.isOpen name).mp member
    rw [noneOpen] at isOpen
    cases isOpen
  obtain ⟨ids', represent', distinct, -⟩ := represents'.scopes
  have isMain : closed.main.Represents closed.slots closed'.main ids' := by
    rw [noneOpen] at represent'
    generalize closed.inline = inline at represent'
    cases represent' with
    | main isMain => exact isMain
  obtain ⟨moved, -, built, component⟩ := isMain.build?_eq distinct
  simp only [bind, Except.bind, built, component, components, represents'.buckets,
    represents'.imports]
  rfl

end Represents

/-- An arena makes the same of every source: it never fails to build a tree. -/
theorem parse_eq_mapError (source : String) (start : Position) (sourcePath : Option String) :
    parse source start sourcePath = (Template.parse source start sourcePath).mapError .fault := by
  have agree := (represents_initial start).foldlM (Token.scan source start)
  unfold parse Template.parse Template.ofTokens
  generalize (Token.scan source start).foldlM step (initial start) = read at agree
  generalize (Token.scan source start).foldlM Assembly.step (.initial start) = read' at agree
  cases read with
  | ok arena =>
      cases read' with
      | ok assembly => exact agree.finish sourcePath
      | error error => exact agree.elim
  | error halt =>
      cases read' with
      | ok assembly => exact agree.elim
      | error error => exact congrArg Except.error agree

end Arena

end TemplateMarkup
