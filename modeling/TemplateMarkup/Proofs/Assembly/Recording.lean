import TemplateMarkup.Proofs.Assembly.Collection
import TemplateMarkup.Proofs.Document.Ledger

/-!
# What a run records

An opening tag is entered into the ledger of a run if its element is collected or is the root of an
inline component.  The component is entered once more when its scope is closed: by its own tag if that
closes itself, by a closing tag, or at the end of the source.  At every moment of a run the assembly
has the ledger that the entries so far make, and each component has been entered as often as it has to
be: not at all, once if it is open, and twice if it is closed.
-/

namespace TemplateMarkup

open Ledger (Entry)

namespace Destination

/-- The script or style sheet that goes into a bucket, with the name of the bucket. -/
def collected? : Destination → Option (String × Asset)
  | .script bucket added => some (bucket, .script added)
  | .style bucket added => some (bucket, .style added)
  | _ => none

def imported? : Destination → Option ComponentImport
  | .imports imported => some imported
  | _ => none

def entries : Destination → List Entry
  | .script bucket added => [.asset bucket (.script added)]
  | .style bucket added => [.asset bucket (.style added)]
  | .imports imported => [.imported imported]
  | _ => []

theorem entries_tree : tree.entries = [] := rfl

end Destination

namespace Scope

theorem tag_root_closeMany (count : Nat) (scope : Scope) :
    (closeMany count scope).root.tag = scope.root.tag := by
  induction count generalizing scope with
  | zero => rfl
  | succ count ih => exact (ih scope.closeInnermost).trans scope.tags_closeInnermost.1

/-- The entries of components that are closed. -/
def completions (scopes : List (String × Scope)) : List Entry :=
  scopes.map fun opened => .completed opened.1 opened.2.toComponent

end Scope

/-- What is entered for an opening tag. -/
def OpeningTag.entries (opening : OpeningTag) (body : Option RawBody) : List Entry :=
  match opening.tag.componentName? with
  | some name =>
      .declared name opening.tag ::
        if opening.isSelfClosing then Scope.completions [(name, .ofRoot opening.tag)] else []
  | none => (Destination.ofElement opening.tag body).entries

theorem OpeningTag.filterMap_entries (opening : OpeningTag) (body : Option RawBody) :
    let destination := Destination.ofElement opening.tag body
    (opening.entries body).filterMap Entry.asset? = destination.collected?.toList ∧
      (opening.entries body).filterMap Entry.import? = destination.imported?.toList ∧
      (opening.entries body).filterMap Entry.declared? =
        (opening.tag.componentName?.map (·, opening.tag)).toList := by
  intro destination
  unfold entries
  cases declares : opening.tag.componentName? with
  | none =>
      show destination.entries.filterMap _ = _ ∧ destination.entries.filterMap _ = _ ∧
        destination.entries.filterMap _ = _
      cases destination <;> exact ⟨rfl, rfl, rfl⟩
  | some name =>
      have isTree : destination = .tree := by
        refine Destination.ofElement_of_not_placed body ?_
        rw [FlatAssembly.name_of_componentName?_eq_some declares]
        rfl
      rw [isTree]
      cases opening.isSelfClosing <;> exact ⟨rfl, rfl, rfl⟩

namespace Assembly

variable {assembly next : Assembly} {opening : OpeningTag} {body : Option RawBody}

def ledger (assembly : Assembly) : Ledger :=
  ⟨assembly.buckets, assembly.imports, assembly.components⟩

theorem inline_closeScope (assembly : Assembly) : assembly.closeScope.inline = assembly.inline.tail := by
  rcases assembly with ⟨main, inline, components, buckets, imports⟩
  cases inline <;> rfl

theorem inline_closeScopes_eq_drop (count : Nat) (assembly : Assembly) :
    (closeScopes count assembly).inline = assembly.inline.drop count := by
  induction count generalizing assembly with
  | zero => rfl
  | succ count ih =>
      rw [closeScopes, ih, inline_closeScope, List.drop_tail]

theorem length_inline_modifyCurrent (assembly : Assembly) (change : Scope → Scope) :
    (assembly.modifyCurrent change).inline.length = assembly.inline.length := by
  rcases assembly with ⟨main, inline, components, buckets, imports⟩
  cases inline <;> rfl

/-- An assembly has been put together with the given entries. -/
structure HasEntered (entries : List Entry) (assembly : Assembly) : Prop where
  ledger : assembly.ledger = .ofEntries entries
  declared : assembly.components.names = (entries.filterMap Entry.declared?).map Prod.fst
  undeclared : ∀ name ∉ assembly.components.names, entries.filter (·.isAbout name) = []
  opened : ∀ opened ∈ assembly.inline,
    entries.filter (·.isAbout opened.1) = [.declared opened.1 opened.2.root.tag]
  closed : ∀ {name component}, (name, some component) ∈ assembly.components.entries →
    entries.filter (·.isAbout name) =
      [.declared name component.root.tag, .completed name component]

namespace HasEntered

variable {entries : List Entry}

theorem initial (start : Position) : (initial start).HasEntered [] where
  ledger := rfl
  declared := rfl
  undeclared _ _ := rfl
  opened := nofun
  closed := nofun

theorem modifyCurrent (has : assembly.HasEntered entries) {change : Scope → Scope}
    (keeps : ∀ scope, (change scope).root.tag = scope.root.tag) :
    (assembly.modifyCurrent change).HasEntered entries := by
  rcases assembly with ⟨main, inline, components, buckets, imports⟩
  cases inline with
  | nil => exact ⟨has.ledger, has.declared, has.undeclared, nofun, has.closed⟩
  | cons opened outer =>
      refine ⟨has.ledger, has.declared, has.undeclared,
        List.forall_mem_cons.mpr ⟨?_, fun opened isOuter => ?_⟩, has.closed⟩
      · rw [keeps]
        exact has.opened opened List.mem_cons_self
      · exact has.opened opened (.tail _ isOuter)

/-- What is entered of no component leaves the components as they are. -/
theorem collect (has : assembly.HasEntered entries) {entry : Entry} (notComponent : entry.value? = none)
    {buckets : NameMap Bucket} {imports : List ComponentImport}
    (entered : { assembly with buckets, imports }.ledger = assembly.ledger.enter entry) :
    HasEntered (entries ++ [entry]) { assembly with buckets, imports } := by
  have others (name : String) :=
    Ledger.filter_isAbout_append entries (Entry.isAbout_of_value? notComponent name)
  have notDeclared : entry.declared? = none := by
    cases entry with
    | declared => cases notComponent
    | _ => rfl
  refine ⟨?_, ?_, fun name isNew => ?_, fun opened isOpen => ?_, fun member => ?_⟩
  · rw [Ledger.ofEntries_append_singleton, ← has.ledger]
    exact entered
  · rw [List.filterMap_append, List.filterMap_cons_none notDeclared, List.filterMap_nil,
      List.append_nil]
    exact has.declared
  · rw [others]
    exact has.undeclared name isNew
  · rw [others]
    exact has.opened opened isOpen
  · rw [others]
    exact has.closed member

variable {start : Position} {appended : List (Option String × NodeHead)}

theorem declare (has : assembly.HasEntered entries)
    (records : Arena.Records start appended assembly) {name : String}
    (isNew : name ∉ assembly.components.names) (tag : Tag) :
    HasEntered (entries ++ [.declared name tag]) { assembly with
      inline := (name, .ofRoot tag) :: assembly.inline
      components := assembly.components.insert name none } := by
  have others {other : String} (different : other ≠ name) :=
    have isOther : (Entry.declared name tag).isAbout other = false := beq_false_of_ne different.symm
    Ledger.filter_isAbout_append entries isOther
  refine ⟨?_, ?_, fun other isNew => ?_, List.forall_mem_cons.mpr ⟨?_, fun opened member => ?_⟩,
    fun member => ?_⟩
  · rw [Ledger.ofEntries_append_singleton, ← has.ledger]
    rfl
  · rw [NameMap.names_insert_of_not_mem _ isNew, List.filterMap_append, List.map_append,
      ← has.declared]
    rfl
  · obtain ⟨different, isNew⟩ := not_or.mp (isNew ∘ NameMap.mem_names_insert.mpr)
    rw [others different]
    exact has.undeclared other isNew
  · rw [List.filter_append, has.undeclared name isNew]
    simp [Entry.isAbout, Entry.value?, Scope.ofRoot, OpenElement.ofTag]
  · have isOpen : (opened.1, none) ∈ assembly.components.entries :=
      (records.isOpen opened.1).mpr (List.mem_map_of_mem member)
    have different : opened.1 ≠ name := fun same => isNew (same ▸ List.mem_map_of_mem isOpen)
    rw [others different]
    exact has.opened opened member
  · rcases NameMap.mem_entries_insert_iff.mp member with ⟨-, same⟩ | ⟨different, member⟩
    · cases same
    · rw [others different]
      exact has.closed member

theorem closeScope (has : assembly.HasEntered entries)
    (records : Arena.Records start appended assembly) :
    assembly.closeScope.HasEntered (entries ++ Scope.completions (assembly.inline.take 1)) := by
  rcases assembly with ⟨main, inline, components, buckets, imports⟩
  cases inline with
  | nil =>
      rw [List.take_nil, Scope.completions, List.map_nil, List.append_nil]
      exact has
  | cons opened outer =>
      obtain ⟨name, scope⟩ := opened
      obtain ⟨notOuter, -⟩ := List.nodup_cons.mp records.distinct
      have isDeclared : name ∈ components.names :=
        List.mem_map_of_mem ((records.isOpen name).mpr List.mem_cons_self)
      have others {other : String} (different : other ≠ name) :=
        have isOther : (Entry.completed name scope.toComponent).isAbout other = false :=
          beq_false_of_ne different.symm
        Ledger.filter_isAbout_append entries isOther
      have names (value : Option Component) :
          (components.insert name value).names = components.names :=
        NameMap.names_insert_of_mem value isDeclared
      refine ⟨?_, (names _).trans ?_, fun other isNew => ?_, fun opened isOuter => ?_,
        fun member => ?_⟩
      · exact (congrArg (Ledger.enter · (.completed name scope.toComponent)) has.ledger).trans
          (Ledger.ofEntries_append_singleton _ _).symm
      · rw [List.filterMap_append, List.map_append]
        exact has.declared.trans (List.append_nil _).symm
      · have isNew : other ∉ components.names := (names _) ▸ isNew
        have different : other ≠ name := fun same => isNew (same ▸ isDeclared)
        exact (others different).trans (has.undeclared other isNew)
      · have different : opened.1 ≠ name := fun same =>
          notOuter (List.mem_map.mpr ⟨opened, isOuter, same⟩)
        exact (others different).trans (has.opened opened (.tail _ isOuter))
      · rcases NameMap.mem_entries_insert_iff.mp member with ⟨rfl, same⟩ | ⟨different, member⟩
        · cases same
          have isRoot : scope.toComponent.root.tag = scope.root.tag :=
            Scope.tag_root_closeMany scope.nested.length scope
          have once := has.opened _ List.mem_cons_self
          rw [isRoot, List.filter_append, once]
          simp [Entry.isAbout, Entry.value?, Scope.completions]
        · exact (others different).trans (has.closed member)

theorem closeScopes (has : assembly.HasEntered entries)
    (records : Arena.Records start appended assembly) (count : Nat) :
    (closeScopes count assembly).HasEntered
      (entries ++ Scope.completions (assembly.inline.take count)) := by
  induction count generalizing assembly entries with
  | zero =>
      rw [List.take_zero, Scope.completions, List.map_nil, List.append_nil]
      exact has
  | succ count ih =>
      have closed := ih (has.closeScope records) records.closeScope
      have joined : assembly.inline.take 1 ++ assembly.inline.tail.take count =
          assembly.inline.take (count + 1) := by
        rw [Nat.add_comm, List.take_add, List.drop_one]
      rw [inline_closeScope, List.append_assoc, Scope.completions, Scope.completions,
        ← List.map_append, joined] at closed
      exact closed

/-- A closing tag completes the components that are open no more. -/
theorem closeWithin (has : assembly.HasEntered entries)
    (records : Arena.Records start appended assembly) {closing : ClosingTag}
    {scopes : List (String × Scope)} (closes : closeWithin closing scopes assembly = .ok next) :
    next.HasEntered (entries ++ Scope.completions
      (assembly.inline.take (assembly.inline.length - next.inline.length))) := by
  obtain ⟨count, depth, rfl⟩ := exists_of_closeWithin closes
  have closed := (has.closeScopes records count).modifyCurrent (Scope.tag_root_closeMany depth)
  have sameTake : assembly.inline.take (assembly.inline.length -
      ((Assembly.closeScopes count assembly).modifyCurrent (Scope.closeMany depth)).inline.length) =
      assembly.inline.take count := by
    rw [length_inline_modifyCurrent, inline_closeScopes_eq_drop, List.length_drop]
    rcases Nat.le_total count assembly.inline.length with isWithin | isBeyond
    · rw [Nat.sub_sub_self isWithin]
    · rw [Nat.sub_eq_zero_of_le isBeyond, Nat.sub_zero, List.take_length,
        List.take_of_length_le isBeyond]
  rw [sameTake]
  exact closed

theorem place (has : assembly.HasEntered entries) (tag : Tag) (body : Option RawBody) :
    (assembly.place tag body).HasEntered (entries ++ (Destination.ofElement tag body).entries) := by
  have nothing {after : Assembly} (unchanged : after.HasEntered entries) :
      after.HasEntered (entries ++ []) := by
    rwa [List.append_nil]
  unfold Assembly.place
  cases Destination.ofElement tag body with
  | script bucket script => exact has.collect rfl rfl
  | style bucket style => exact has.collect rfl rfl
  | imports imported => exact has.collect rfl rfl
  | tree => exact nothing (has.modifyCurrent fun scope => (scope.tags_append _).1)
  | propTypes text => exact nothing (has.modifyCurrent fun scope => rfl)
  | nowhere => exact nothing has

theorem openComponent (has : assembly.HasEntered entries)
    (records : Arena.Records start appended assembly) {name : String}
    (declares : opening.tag.componentName? = some name)
    (opens : assembly.openComponent name opening = .ok next) :
    next.HasEntered (entries ++ opening.entries body) := by
  unfold Assembly.openComponent at opens
  split at opens
  · cases opens
  · next notDeclared =>
      have isNew : name ∉ assembly.components.names := fun declared =>
        notDeclared (NameMap.contains_iff.mpr declared)
      have declared := has.declare records isNew opening.tag
      have entered : opening.entries body = [.declared name opening.tag] ++
          if opening.isSelfClosing then Scope.completions [(name, .ofRoot opening.tag)] else [] := by
        rw [OpeningTag.entries, declares]
        rfl
      rw [entered, ← List.append_assoc]
      cases opens
      split
      · exact declared.closeScope (records.declare isNew declares)
      · rw [List.append_nil]
        exact declared

theorem openTag (has : assembly.HasEntered entries)
    (records : Arena.Records start appended assembly)
    (opens : assembly.openTag opening body = .ok next) :
    next.HasEntered (entries ++ opening.entries body) := by
  unfold Assembly.openTag at opens
  split at opens
  · next isPlaced =>
      cases opens
      rw [OpeningTag.entries, componentName?_of_place isPlaced]
      exact has.place opening.tag body
  · next notPlaced =>
      split at opens
      · next name declares => exact has.openComponent records declares opens
      · next notComponent =>
          cases opens
          rw [OpeningTag.entries, notComponent,
            Destination.ofElement_of_not_placed body (by simpa using notPlaced),
            Destination.entries_tree, List.append_nil]
          obtain ⟨change, added, keeps⟩ := assembly.exists_addElement_eq opening body
          rw [added]
          exact has.modifyCurrent fun scope => (keeps scope).2

end HasEntered

end Assembly

namespace Turn

/-- The script or style sheet that the turn collects. -/
def collected? (turn : Turn) : Option (String × Asset) := turn.destination?.bind (·.collected?)

def imported? (turn : Turn) : Option ComponentImport := turn.destination?.bind (·.imported?)

/-- The inline component that the turn's opening tag declares. -/
def declared? (turn : Turn) : Option (String × Tag) :=
  turn.opening?.bind fun start => start.1.tag.componentName?.map (·, start.1.tag)

/-- What a turn enters.  A closing tag completes the components that are not open after it, and the
end of the source completes all that are open. -/
def entries (turn : Turn) : List Entry :=
  match turn.opening?, turn.next? with
  | some (opening, body), _ => opening.entries body
  | none, some next =>
      let scopes := turn.withText.inline
      Scope.completions (scopes.take (scopes.length - next.assembly.inline.length))
  | none, none => Scope.completions turn.withText.inline

variable {start : Position} {turn next : Turn} {arena : Arena}

theorem exists_of_declared? {name : String} {tag : Tag} (declares : turn.declared? = some (name, tag)) :
    ∃ opening body, turn.opening? = some (opening, body) ∧
      opening.tag.componentName? = some name ∧ tag = opening.tag := by
  obtain ⟨⟨opening, body⟩, isTag, ofTag⟩ := Option.bind_eq_some_iff.mp declares
  obtain ⟨_, isName, same⟩ := Option.map_eq_some_iff.mp ofTag
  cases same
  exact ⟨opening, body, isTag, isName, rfl⟩

theorem hasEntered_withText {entered : List Entry} (has : turn.assembly.HasEntered entered) :
    turn.withText.HasEntered entered := by
  rw [withText_eq]
  split
  · exact has
  · exact has.modifyCurrent fun scope => (scope.tags_append _).1

theorem hasEntered_next? {entered : List Entry} (represents : arena.Represents start turn.assembly)
    (has : turn.assembly.HasEntered entered) (follows : turn.next? = some next) :
    next.assembly.HasEntered (entered ++ turn.entries) := by
  have has := hasEntered_withText has
  have records := (represents_withText represents).records
  unfold entries
  rcases next?_cases follows with ⟨opening, body, isTag, opens, -⟩ | ⟨closing, noTag, closes, -⟩
  · rw [isTag]
    exact has.openTag records opens
  · rw [noTag, follows]
    exact has.closeWithin records closes

/-- A turn starts from what the turns before it have entered. -/
theorem hasEntered_of_onwards {entered : List Entry}
    (represents : arena.Represents start turn.assembly) (has : turn.assembly.HasEntered entered) :
    ∀ {before later after}, turn.onwards = before ++ later :: after →
      later.assembly.HasEntered (entered ++ before.flatMap entries) := by
  have isFirst {turn : Turn} {entered : List Entry} (has : turn.assembly.HasEntered entered) :
      turn.assembly.HasEntered (entered ++ List.flatMap entries []) := by
    rwa [List.flatMap_nil, List.append_nil]
  fun_induction onwards turn generalizing arena entered with
  | case1 turn isLast =>
      intro before later after onwards
      cases before with
      | nil =>
          cases onwards
          exact isFirst has
      | cons first before => simp at onwards
  | case2 turn next follows ih =>
      intro before later after onwards
      cases before with
      | nil =>
          cases onwards
          exact isFirst has
      | cons first before =>
          obtain ⟨rfl, onwardsNext⟩ := List.cons.inj onwards
          obtain ⟨arena', represents'⟩ := exists_represents_next? represents follows
          have handedOn := ih represents' (hasEntered_next? represents has follows) onwardsNext
          rw [List.append_assoc] at handedOn
          exact handedOn

theorem filterMap_entries (turn : Turn) :
    turn.entries.filterMap Entry.asset? = turn.collected?.toList ∧
      turn.entries.filterMap Entry.import? = turn.imported?.toList ∧
      turn.entries.filterMap Entry.declared? = turn.declared?.toList := by
  have completions (scopes : List (String × Scope)) :
      (Scope.completions scopes).filterMap Entry.asset? = [] ∧
        (Scope.completions scopes).filterMap Entry.import? = [] ∧
        (Scope.completions scopes).filterMap Entry.declared? = [] := by
    unfold Scope.completions
    rw [List.filterMap_map, List.filterMap_map, List.filterMap_map]
    exact ⟨List.filterMap_none _, List.filterMap_none _, List.filterMap_none _⟩
  unfold entries collected? imported? declared? destination?
  split
  · next opening body isTag =>
      rw [isTag, Option.map_some, Option.bind_some, Option.bind_some, Option.bind_some]
      exact opening.filterMap_entries body
  · next noTag _ =>
      rw [noTag]
      exact completions _
  · next noTag _ =>
      rw [noTag]
      exact completions _

theorem filterMap_flatMap_entries (turns : List Turn) :
    (turns.flatMap entries).filterMap Entry.asset? = turns.filterMap collected? ∧
      (turns.flatMap entries).filterMap Entry.import? = turns.filterMap imported? ∧
      (turns.flatMap entries).filterMap Entry.declared? = turns.filterMap declared? := by
  have gathered {α : Type} (kind : Entry → Option α) (ofTurn : Turn → Option α)
      (same : ∀ turn : Turn, turn.entries.filterMap kind = (ofTurn turn).toList) :
      (turns.flatMap entries).filterMap kind = turns.filterMap ofTurn := by
    rw [List.filterMap_flatMap]
    simp only [same]
    exact (List.filterMap_eq_flatMap_toList _ _).symm
  exact ⟨gathered _ _ fun turn => turn.filterMap_entries.1,
    gathered _ _ fun turn => turn.filterMap_entries.2.1,
    gathered _ _ fun turn => turn.filterMap_entries.2.2⟩

end Turn

namespace Template

variable {source : String} {start : Position} {sourcePath : Option String} {template : Template}

/-- Everything that is entered while a source is read. -/
def entries (source : String) (start : Position) : List Entry :=
  (turns source start).flatMap Turn.entries

/-- A turn starts from what the turns before it have entered. -/
theorem hasEntered_turn {before after : List Turn} {turn : Turn}
    (split : turns source start = before ++ turn :: after) :
    turn.assembly.HasEntered (before.flatMap Turn.entries) := by
  have has : (Turn.initial source start).assembly.HasEntered [] := .initial start
  have handedOn := Turn.hasEntered_of_onwards (Arena.represents_initial start) has split
  rwa [List.nil_append] at handedOn

/-- The end of a run: what has been entered, with a value for every component. -/
theorem exists_hasEntered (isParsed : parse source start sourcePath = .ok template) :
    ∃ closed : Assembly, closed.HasEntered (entries source start) ∧
      template.buckets = closed.buckets ∧ template.imports = closed.imports ∧
      closed.components.entries =
        template.inlineComponents.entries.map fun entry => (entry.1, some entry.2) := by
  obtain ⟨final, run, rfl⟩ := exists_run isParsed
  obtain ⟨before, last, onwards, isLast, noTag, rfl⟩ := Turn.exists_onwards_eq_concat run
  have onwards : turns source start = before ++ [last] := onwards
  have has := hasEntered_turn onwards
  have isTurn : last ∈ turns source start := onwards ▸ List.mem_append_cons_self
  obtain ⟨arena, represents⟩ := exists_represents_turn isTurn
  have records := (Turn.represents_withText represents).records
  have closed := (Turn.hasEntered_withText has).closeScopes records last.withText.inline.length
  refine ⟨_, ?_, rfl, rfl, ?_⟩
  · have entered : entries source start = before.flatMap Turn.entries ++
        Scope.completions (last.withText.inline.take last.withText.inline.length) := by
      rw [entries, onwards, List.flatMap_append, List.flatMap_singleton, Turn.entries, noTag,
        isLast, List.take_length]
    rw [entered]
    exact closed
  · have noneOpen := (last.withText.inline_closeScopes last.withText.inline rfl).1
    have valued (name : String) : (name, none) ∉ (Assembly.closeScopes last.withText.inline.length
        last.withText).components.entries := by
      rw [(records.closeScopes _).isOpen, noneOpen]
      exact List.not_mem_nil
    exact NameMap.entries_eq_map_some valued

/-- The buckets group what the turns have collected. -/
theorem entries_buckets (isParsed : parse source start sourcePath = .ok template) :
    template.buckets.entries = stableGrouping ((turns source start).filterMap Turn.collected?) := by
  obtain ⟨closed, has, buckets, -⟩ := exists_hasEntered isParsed
  have ledger := congrArg Ledger.buckets has.ledger
  rw [← (Turn.filterMap_flatMap_entries _).1, ← entries, ← Ledger.buckets_ofEntries, ← ledger, buckets]
  rfl

theorem imports_eq (isParsed : parse source start sourcePath = .ok template) :
    template.imports = (turns source start).filterMap Turn.imported? := by
  obtain ⟨closed, has, -, imports, -⟩ := exists_hasEntered isParsed
  have ledger := congrArg Ledger.imports has.ledger
  rw [← (Turn.filterMap_flatMap_entries _).2.1, ← entries, ← Ledger.imports_ofEntries, ← ledger,
    imports]
  rfl

/-- The inline components are those that the turns have declared. -/
theorem roots_inlineComponents (isParsed : parse source start sourcePath = .ok template) :
    template.inlineComponents.entries.map (fun entry => (entry.1, entry.2.root.tag)) =
      (turns source start).filterMap Turn.declared? := by
  obtain ⟨closed, has, -, -, components⟩ := exists_hasEntered isParsed
  rw [← (Turn.filterMap_flatMap_entries _).2.2, ← entries]
  have names : template.inlineComponents.entries.map Prod.fst = closed.components.names := by
    rw [NameMap.names, components, List.map_map]
    rfl
  refine NameMap.entries_eq_of_names ?_ ?_ fun entry member => ?_
  · rw [← has.declared, ← names, List.map_map]
    rfl
  · rw [← has.declared]
    exact closed.components.distinct
  · obtain ⟨⟨name, component⟩, isEntry, rfl⟩ := List.mem_map.mp member
    have isClosed : (name, some component) ∈ closed.components.entries := by
      rw [components]
      exact List.mem_map.mpr ⟨_, isEntry, rfl⟩
    have entered : Entry.declared name component.root.tag ∈
        (entries source start).filter (·.isAbout name) := by
      rw [has.closed isClosed]
      exact List.mem_cons_self
    exact List.mem_filterMap.mpr ⟨_, (List.mem_filter.mp entered).1, rfl⟩

/-- The lists that a run writes are in the order of the source, they only grow at their ends, and the
entry of each component changes once. -/
structure IsRecorded (source : String) (start : Position) (template : Template) : Prop where
  /-- One bucket for each name, in the order of the first script or style sheet of each name, with the
  scripts and the style sheets of that name in their order. -/
  buckets : template.buckets.entries =
    stableGrouping ((turns source start).filterMap Turn.collected?)
  imports : template.imports = (turns source start).filterMap Turn.imported?
  /-- The inline components are in the order of the tags that declare them. -/
  inlineComponents : template.inlineComponents.entries.map (fun entry => (entry.1, entry.2.root.tag)) =
    (turns source start).filterMap Turn.declared?
  /-- At every turn the assembly has recorded what the turns before it have entered. -/
  recorded : ∀ before turn after, turns source start = before ++ turn :: after →
    turn.assembly.ledger = .ofEntries (before.flatMap Turn.entries)
  /-- At last the template has everything that has been entered. -/
  final : ∃ components, Ledger.ofEntries (entries source start) =
      ⟨template.buckets, template.imports, components⟩ ∧
    components.entries = template.inlineComponents.entries.map fun entry => (entry.1, some entry.2)
  grows : ∀ count, (Ledger.ofEntries ((entries source start).take (count + 1))).Extends
    (.ofEntries ((entries source start).take count))
  /-- Under the name of a component there is nothing until its tag has been read, a placeholder until
  its scope has been closed, and from then on its value. -/
  changes : ∀ name component, (name, component) ∈ template.inlineComponents.entries →
    ∃ declared completed, declared < completed ∧
      (entries source start)[declared]? = some (.declared name component.root.tag) ∧
      (entries source start)[completed]? = some (.completed name component) ∧
      ∀ count, (Ledger.ofEntries ((entries source start).take count)).components.find? name =
        if count ≤ declared then none else if count ≤ completed then some none
        else some (some component)
  /-- There is a placeholder exactly for the components that are open. -/
  isOpen : ∀ turn ∈ turns source start, ∀ name,
    turn.assembly.components.find? name = some none ↔ name ∈ turn.assembly.inline.map Prod.fst

/-- What is recorded is only ever appended, and it is grouped stably. -/
theorem isRecorded_of_parse (isParsed : parse source start sourcePath = .ok template) :
    template.IsRecorded source start := by
  obtain ⟨closed, has, buckets, imports, components⟩ := exists_hasEntered isParsed
  refine ⟨entries_buckets isParsed, imports_eq isParsed, roots_inlineComponents isParsed,
    fun before turn after split => (hasEntered_turn split).ledger, ?_, fun count => ?_,
    fun name component member => ?_, fun turn isTurn name => ?_⟩
  · refine ⟨closed.components, ?_, components⟩
    rw [← has.ledger, buckets, imports]
    rfl
  · rw [List.take_add_one]
    cases (entries source start)[count]? with
    | none =>
        rw [Option.toList_none, List.append_nil]
        exact .refl _
    | some entry =>
        rw [Option.toList_some, Ledger.ofEntries_append_singleton]
        exact Ledger.extends_enter _ entry
  · have isClosed : (name, some component) ∈ closed.components.entries := by
      rw [components]
      exact List.mem_map.mpr ⟨_, member, rfl⟩
    exact Ledger.exists_changes (has.closed isClosed)
  · obtain ⟨arena, represents⟩ := exists_represents_turn isTurn
    rw [NameMap.find?_eq_some_iff]
    exact represents.records.isOpen name

/-- Style sheets in two buckets, and a component in a component. -/
def shelfSource : String :=
  "<style #bucket=\"b\">x</style><template #component=\"outer\"><style>y</style>" ++
    "<template #component=\"inner\"></template></template><style #bucket=\"b\">z</style>"

/-- The inner component is declared later and completed earlier than the outer one. -/
theorem isRecorded_shelf : ∃ template, parse shelfSource .start none = .ok template ∧
    template.inlineComponents.names = ["outer", "inner"] ∧ template.buckets.names = ["b", "default"] ∧
    (entries shelfSource .start).filterMap (fun entry => entry.value?.map Prod.fst) =
      ["outer", "inner", "inner", "outer"] ∧
    template.IsRecorded shelfSource .start := by
  have isParsed : (parse shelfSource .start none).map (fun template =>
      (template.inlineComponents.names, template.buckets.names)) =
        .ok (["outer", "inner"], ["b", "default"]) := by decide +kernel
  obtain ⟨template, isTemplate, names⟩ := exists_ok_of_map isParsed
  obtain ⟨components, buckets⟩ := Prod.mk.inj names
  exact ⟨template, isTemplate, components, buckets, by decide +kernel, isRecorded_of_parse isTemplate⟩

end Template

end TemplateMarkup
