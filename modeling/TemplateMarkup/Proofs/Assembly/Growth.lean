import TemplateMarkup.Proofs.Arena.Simulation
import TemplateMarkup.Proofs.Assembly.Turns
import TemplateMarkup.Proofs.Document.Families

/-!
# Growth of families

In one turn a single family grows: that of the innermost open element gets what remains of the text
run, and the element of the tag if it stays in the tree.  Besides, the tag may begin a family of its
own.  Closing elements and components leaves all families as they are, so the families of a template
are those that its turns have begun, each of them grown turn by turn.
-/

namespace TemplateMarkup

namespace Assembly

/-- The tags of the open elements of the innermost scope. -/
def lineage (assembly : Assembly) : List Tag := assembly.current.lineage

/-- What is already in the innermost open element. -/
def siblings (assembly : Assembly) : List NodeHead := assembly.current.innermost.children

/-- The families of the inline components that have been closed. -/
def closedFamilies (components : NameMap (Option Component)) : List Family :=
  components.entries.flatMap fun entry => (entry.2.map Component.families).getD []

/-- The families outside of the innermost scope. -/
def outerFamilies (assembly : Assembly) : List Family :=
  match assembly.inline with
  | [] => closedFamilies assembly.components
  | _ :: outer =>
      outer.flatMap (·.2.families) ++
        (assembly.main.families ++ closedFamilies assembly.components)

/-- All families, those of open elements included. -/
def families (assembly : Assembly) : List Family :=
  assembly.current.families ++ assembly.outerFamilies

variable {start : Position} {assembly next : Assembly}

theorem families_eq (assembly : Assembly) :
    assembly.families = assembly.inline.flatMap (·.2.families) ++
      (assembly.main.families ++ closedFamilies assembly.components) := by
  rcases assembly with ⟨main, inline, components, buckets, imports⟩
  cases inline with
  | nil => rfl
  | cons opened outer => exact (List.append_assoc _ _ _).symm

theorem families_modifyCurrent (assembly : Assembly) (change : Scope → Scope) :
    (assembly.modifyCurrent change).families =
      (change assembly.current).families ++ assembly.outerFamilies := by
  rcases assembly with ⟨main, inline, components, buckets, imports⟩
  cases inline <;> rfl

theorem lineage_modifyCurrent (assembly : Assembly) (change : Scope → Scope) :
    (assembly.modifyCurrent change).lineage = (change assembly.current).lineage :=
  congrArg Scope.lineage (assembly.current_modifyCurrent change)

/-- A new node becomes a child of the innermost element and leaves the other families as they are. -/
theorem exists_families_eq (assembly : Assembly) : ∃ others,
    assembly.families = ⟨assembly.lineage, assembly.siblings⟩ :: others ∧
      (∀ node, (assembly.modifyCurrent (·.append node)).families.Perm
        (⟨assembly.lineage, assembly.siblings ++ [node.head]⟩ ::
          (node.families assembly.lineage ++ others))) ∧
      ∀ tag, (assembly.modifyCurrent (·.push tag)).families =
        ⟨tag :: assembly.lineage, []⟩ ::
          ⟨assembly.lineage, assembly.siblings ++ [.element tag]⟩ :: others := by
  obtain ⟨others, now, appended, pushed⟩ := assembly.current.exists_families_eq
  refine ⟨others ++ assembly.outerFamilies, ?_, fun node => ?_, fun tag => ?_⟩
  · rw [families, now]
    rfl
  · rw [families_modifyCurrent, ← List.append_assoc]
    exact (appended node).append_right _
  · rw [families_modifyCurrent, pushed]
    rfl

/-- Closing elements leaves all families as they are. -/
theorem families_closeMany (assembly : Assembly) (count : Nat) :
    (assembly.modifyCurrent (Scope.closeMany count)).families.Perm assembly.families := by
  rw [families_modifyCurrent]
  exact (assembly.current.families_closeMany count).append_right _

theorem closedFamilies_insert {components : NameMap (Option Component)} {name : String}
    (noValue : (components.find? name).join = none) (component : Option Component) :
    (closedFamilies (components.insert name component)).Perm
      ((component.map Component.families).getD [] ++ closedFamilies components) := by
  obtain ⟨others, before, after⟩ := components.exists_perm_insert name
  refine ((after component).flatMap_right _).trans (.append_left _ ?_)
  refine .trans (.of_eq ?_) (before.flatMap_right _).symm
  rcases found : components.find? name with _ | _ | stored
  · rfl
  · rfl
  · rw [found] at noValue
    cases noValue

/-- So does closing a component. -/
theorem families_closeScope {appended : List (Option String × NodeHead)}
    (records : Arena.Records start appended assembly) :
    assembly.closeScope.families.Perm assembly.families := by
  rw [families_eq, families_eq]
  have isOpen := records.isOpen
  rcases assembly with ⟨main, inline, components, buckets, imports⟩
  cases inline with
  | nil => exact .refl _
  | cons opened outer =>
      obtain ⟨name, scope⟩ := opened
      -- An open component is declared without a value, so putting it down replaces no other tree.
      have noValue : (components.find? name).join = none := by
        rw [NameMap.find?_eq_some_iff.mpr ((isOpen name).mpr List.mem_cons_self)]
        rfl
      have closed := (closedFamilies_insert noValue (some scope.toComponent)).trans
        (scope.families_toComponent.append_right _)
      have overMain := (closed.append_left main.families).trans (List.perm_append_comm_assoc _ _ _)
      have overOuter := (overMain.append_left (outer.flatMap (·.2.families))).trans
        (List.perm_append_comm_assoc _ _ _)
      exact overOuter.trans (.of_eq (List.append_assoc _ _ _).symm)

theorem families_closeScopes {appended : List (Option String × NodeHead)}
    (records : Arena.Records start appended assembly) (count : Nat) :
    (closeScopes count assembly).families.Perm assembly.families := by
  induction count generalizing assembly with
  | zero => exact .refl _
  | succ count ih => exact (ih records.closeScope).trans (families_closeScope records)

theorem families_closeWithin {appended : List (Option String × NodeHead)} {closing : ClosingTag}
    {scopes : List (String × Scope)} (records : Arena.Records start appended assembly)
    (closes : closeWithin closing scopes assembly = .ok next) :
    next.families.Perm assembly.families := by
  obtain ⟨count, depth, rfl⟩ := exists_of_closeWithin closes
  exact (families_closeMany _ depth).trans (families_closeScopes records count)

/-- The families of a template are those of the assembly that it is made of. -/
theorem families_finish {appended : List (Option String × NodeHead)}
    (records : Arena.Records start appended assembly) (sourcePath : Option String) :
    (assembly.finish sourcePath).families.Perm assembly.families := by
  refine .trans ?_ (families_closeScopes records assembly.inline.length)
  obtain ⟨noneOpen, -⟩ := assembly.inline_closeScopes assembly.inline rfl
  unfold finish
  generalize closeScopes assembly.inline.length assembly = closed at noneOpen
  have inline (entries : List (String × Option Component)) :
      ((NameMap.filterEntries id entries).map Prod.snd).flatMap Component.families =
        entries.flatMap fun entry => (entry.2.map Component.families).getD [] := by
    induction entries with
    | nil => rfl
    | cons entry rest ih =>
        obtain ⟨name, _ | component⟩ := entry
        · exact ih
        · exact congrArg (component.families ++ ·) ih
  rw [families_eq, noneOpen]
  refine .trans (.of_eq ?_) (closed.main.families_toComponent.append_right _)
  exact congrArg (closed.main.toComponent.families ++ ·) (inline closed.components.entries)

end Assembly

namespace OpeningTag

/-- The element of a tag stays in the tree: it is neither collected nor the root of a component. -/
def staysInTree (opening : OpeningTag) (body : Option RawBody) : Bool :=
  if opening.tag.name == "link" || TagName.hasForeignBody opening.tag.name then
    Destination.ofElement opening.tag body == .tree
  else
    opening.tag.componentName?.isNone

/-- What a tag adds to the innermost element. -/
def added (opening : OpeningTag) (body : Option RawBody) : List NodeHead :=
  if opening.staysInTree body then [.element opening.tag] else []

/-- The family that a tag begins within elements of the given tags. -/
def begun (opening : OpeningTag) (body : Option RawBody) (lineage : List Tag) : List Family :=
  if opening.staysInTree body then
    [⟨opening.tag :: lineage, (RawBody.children body).map Node.head⟩]
  else if opening.tag.componentName?.isSome then [⟨[opening.tag], []⟩]
  else []

end OpeningTag

theorem RawBody.familiesAll_children (above : List Tag) (body : Option RawBody) :
    Node.familiesAll above (children body) = [] := by
  unfold children
  split
  · rfl
  · split <;> rfl

namespace Assembly

variable {start : Position} {assembly next : Assembly} {opening : OpeningTag}
variable {body : Option RawBody}

theorem componentName?_of_place
    (isPlaced : opening.tag.name == "link" || TagName.hasForeignBody opening.tag.name) :
    opening.tag.componentName? = none := by
  cases declared : opening.tag.componentName? with
  | none => rfl
  | some name =>
      rw [FlatAssembly.name_of_componentName?_eq_some declared] at isPlaced
      cases isPlaced

/-- The innermost element has grown and others may have come to the other families. -/
def Grown (assembly next : Assembly) (more : List NodeHead) (begun : List Family) : Prop :=
  ∃ others, assembly.families.Perm (⟨assembly.lineage, assembly.siblings⟩ :: others) ∧
    next.families.Perm (⟨assembly.lineage, assembly.siblings ++ more⟩ :: (begun ++ others))

theorem grown_of_families_eq (same : next.families.Perm assembly.families) :
    assembly.Grown next [] [] := by
  obtain ⟨others, now, -, -⟩ := assembly.exists_families_eq
  refine ⟨others, .of_eq now, same.trans ?_⟩
  rw [List.append_nil, List.nil_append, now]

theorem grown_addClosed (assembly : Assembly) (tag : Tag) (body : Option RawBody) :
    assembly.Grown (assembly.addClosed tag body) [.element tag]
      [⟨tag :: assembly.lineage, (RawBody.children body).map Node.head⟩] := by
  obtain ⟨others, now, appended, -⟩ := assembly.exists_families_eq
  refine ⟨others, .of_eq now, (appended _).trans (.of_eq ?_)⟩
  rw [Node.families, RawBody.familiesAll_children]
  rfl

theorem grown_place (assembly : Assembly) (body : Option RawBody)
    (isPlaced : opening.tag.name == "link" || TagName.hasForeignBody opening.tag.name) :
    assembly.Grown (assembly.place opening.tag body) (opening.added body)
      (opening.begun body assembly.lineage) := by
  have notComponent := componentName?_of_place isPlaced
  have stays : opening.staysInTree body = (Destination.ofElement opening.tag body == .tree) :=
    if_pos isPlaced
  unfold place OpeningTag.added OpeningTag.begun
  rw [stays, notComponent]
  cases Destination.ofElement opening.tag body with
  | tree => exact assembly.grown_addClosed opening.tag body
  | propTypes text => exact grown_of_families_eq (.of_eq (assembly.families_modifyCurrent _))
  | _ => exact grown_of_families_eq (.refl _)

/-- Noting a slot changes nothing in the trees. -/
theorem families_recordSlot (assembly : Assembly) (tag : Tag) :
    (assembly.modifyCurrent (·.recordSlot tag)).families = assembly.families ∧
      (assembly.modifyCurrent (·.recordSlot tag)).lineage = assembly.lineage ∧
      (assembly.modifyCurrent (·.recordSlot tag)).siblings = assembly.siblings := by
  have elements := assembly.current.elements_recordSlot tag
  refine ⟨?_, ?_, ?_⟩
  · rw [families_modifyCurrent, Scope.families, elements]
    rfl
  · rw [lineage_modifyCurrent, Scope.lineage, elements]
    rfl
  · rw [siblings, current_modifyCurrent, Scope.recordSlot]
    split <;> rfl

theorem grown_addElement (assembly : Assembly) (opening : OpeningTag) (body : Option RawBody) :
    assembly.Grown (assembly.addElement opening body) [.element opening.tag]
      [⟨opening.tag :: assembly.lineage, (RawBody.children body).map Node.head⟩] := by
  obtain ⟨noted, isNoted, families, lineage, siblings⟩ : ∃ noted, noted =
      (if opening.tag.name == "slot" then assembly.modifyCurrent (·.recordSlot opening.tag)
        else assembly) ∧ noted.families = assembly.families ∧
      noted.lineage = assembly.lineage ∧ noted.siblings = assembly.siblings := by
    refine ⟨_, rfl, ?_⟩
    split
    · exact assembly.families_recordSlot opening.tag
    · exact ⟨rfl, rfl, rfl⟩
  unfold addElement Grown
  rw [← isNoted, ← families, ← lineage, ← siblings]
  dsimp only
  split
  · exact noted.grown_addClosed opening.tag body
  · next isOpened =>
      have noBody : body = none := by
        cases body with
        | none => rfl
        | some body => simp at isOpened
      obtain ⟨others, now, -, pushed⟩ := noted.exists_families_eq
      refine ⟨others, .of_eq now, ?_⟩
      rw [pushed, noBody]
      exact .swap _ _ _

theorem grown_openComponent {appended : List (Option String × NodeHead)}
    (records : Arena.Records start appended assembly) {name : String}
    (declares : opening.tag.componentName? = some name)
    (opens : assembly.openComponent name opening = .ok next) :
    assembly.Grown next [] [⟨[opening.tag], []⟩] := by
  unfold openComponent at opens
  split at opens
  · cases opens
  · next notDeclared =>
      have isNew : name ∉ assembly.components.names := fun declared =>
        notDeclared (NameMap.contains_iff.mpr declared)
      have declared := records.declare isNew declares
      have noValue : (assembly.components.find? name).join = none := by
        rw [NameMap.find?_eq_none_iff.mpr isNew]
        rfl
      have opened : Assembly.families { assembly with
          inline := (name, .ofRoot opening.tag) :: assembly.inline
          components := assembly.components.insert name none } |>.Perm
            (⟨[opening.tag], []⟩ :: assembly.families) := by
        rw [families_eq, families_eq]
        have closed := closedFamilies_insert noValue none
        exact ((closed.append_left _).append_left _).cons _
      have perm : next.families.Perm (⟨[opening.tag], []⟩ :: assembly.families) := by
        cases opens
        split
        · exact (families_closeScope declared).trans opened
        · exact opened
      obtain ⟨others, now, -⟩ := assembly.exists_families_eq
      refine ⟨others, .of_eq now, perm.trans ?_⟩
      rw [now, List.append_nil]
      exact .swap _ _ _

/-- An opening tag makes the innermost element grow and may begin a family. -/
theorem grown_openTag {appended : List (Option String × NodeHead)}
    (records : Arena.Records start appended assembly)
    (opens : assembly.openTag opening body = .ok next) :
    assembly.Grown next (opening.added body) (opening.begun body assembly.lineage) := by
  unfold openTag at opens
  split at opens
  · next isPlaced =>
      cases opens
      exact assembly.grown_place body isPlaced
  · next notPlaced =>
      have stays : opening.staysInTree body = opening.tag.componentName?.isNone :=
        if_neg notPlaced
      unfold OpeningTag.added OpeningTag.begun
      split at opens
      · next name declares =>
          rw [stays, declares]
          exact grown_openComponent records declares opens
      · next notComponent =>
          cases opens
          rw [stays, notComponent]
          exact assembly.grown_addElement opening body

theorem Grown.trans {middle : Assembly} {more later : List NodeHead} {begun : List Family}
    (first : assembly.Grown middle more []) (second : middle.Grown next later begun)
    (lineage : middle.lineage = assembly.lineage)
    (siblings : middle.siblings = assembly.siblings ++ more) :
    assembly.Grown next (more ++ later) begun := by
  obtain ⟨others, before, after⟩ := first
  obtain ⟨others', before', after'⟩ := second
  rw [lineage, siblings] at before' after'
  -- Both steps are about the same family, so the families beside it are the same as well.
  have same : others.Perm others' := (after.symm.trans before').cons_inv
  rw [List.append_assoc] at after'
  exact ⟨others', before.trans (same.cons _), after'⟩

/-- What is counted of each family, and does not change as the family grows, increases by what is
counted of a family that begins. -/
theorem Grown.perm_filterMap {β : Type} {counted : Family → Option β} {more : List NodeHead}
    {begun : List Family} (grown : assembly.Grown next more begun)
    (stays : counted ⟨assembly.lineage, assembly.siblings ++ more⟩ =
      counted ⟨assembly.lineage, assembly.siblings⟩) :
    (next.families.filterMap counted).Perm
      (assembly.families.filterMap counted ++ begun.filterMap counted) := by
  obtain ⟨others, before, after⟩ := grown
  have same (rest : List Family) :
      List.filterMap counted (⟨assembly.lineage, assembly.siblings ++ more⟩ :: rest) =
        List.filterMap counted (⟨assembly.lineage, assembly.siblings⟩ :: rest) := by
    rw [List.filterMap_cons, List.filterMap_cons, stays]
  refine (after.filterMap counted).trans ?_
  refine .trans ?_ ((before.filterMap counted).symm.append_right _)
  rw [same, ← List.filterMap_append, List.cons_append]
  exact (List.perm_append_comm.cons _).filterMap counted

end Assembly

namespace Turn

/-- What remains of the text run where it is added. -/
def keptText (turn : Turn) : String :=
  if turn.assembly.keepsWhitespace then turn.run.text
  else
    let policy := WhitespacePolicy.between turn.assembly.siblings.isEmpty turn.opening?.isNone
    String.ofList (policy.apply turn.run.text.toList)

/-- The text that a turn adds to the innermost element, if anything remains of it. -/
def text (turn : Turn) : List NodeHead :=
  if turn.keptText.isEmpty then [] else [.text turn.keptText turn.run.position]

/-- What a turn adds to the innermost element. -/
def added (turn : Turn) : List NodeHead :=
  turn.text ++ (turn.opening?.map fun start => start.1.added start.2).getD []

/-- The family that a turn begins. -/
def begun (turn : Turn) : List Family :=
  (turn.opening?.map fun start => start.1.begun start.2 turn.assembly.lineage).getD []

variable {start : Position} {turn next : Turn}

/-- A turn adds its text, and then the element of its tag if that stays in the tree. -/
theorem added_cases (turn : Turn) : ∃ after, turn.added = turn.text ++ after ∧
    (turn.opening? = none ∧ after = [] ∨
      ∃ opening body, turn.opening? = some (opening, body) ∧
        (opening.staysInTree body ∧ after = [.element opening.tag] ∨
          opening.staysInTree body = false ∧ after = [])) := by
  refine ⟨_, rfl, ?_⟩
  cases isTag : turn.opening? with
  | none => exact .inl ⟨rfl, rfl⟩
  | some start =>
      refine .inr ⟨start.1, start.2, rfl, ?_⟩
      rw [Option.map_some, Option.getD_some, OpeningTag.added]
      cases stays : start.1.staysInTree start.2 with
      | true => exact .inl ⟨rfl, rfl⟩
      | false => exact .inr ⟨rfl, rfl⟩

/-- A family that begins is that of an element that stays in the tree, or that of a root. -/
theorem mem_begun {family : Family} (member : family ∈ turn.begun) :
    ∃ opening body, turn.opening? = some (opening, body) ∧
      (opening.staysInTree body ∧ family =
        ⟨opening.tag :: turn.assembly.lineage, (RawBody.children body).map Node.head⟩ ∨
      opening.tag.componentName?.isSome ∧ family = ⟨[opening.tag], []⟩) := by
  unfold begun at member
  cases isTag : turn.opening? with
  | none =>
      rw [isTag] at member
      cases member
  | some start =>
      obtain ⟨opening, body⟩ := start
      rw [isTag] at member
      refine ⟨opening, body, rfl, ?_⟩
      have member : family ∈ opening.begun body turn.assembly.lineage := member
      unfold OpeningTag.begun at member
      split at member
      · next stays => exact .inl ⟨stays, List.mem_singleton.mp member⟩
      · split at member
        · next isComponent => exact .inr ⟨isComponent, List.mem_singleton.mp member⟩
        · cases member

theorem withText_eq (turn : Turn) : turn.withText =
    if turn.keptText.isEmpty then turn.assembly
    else turn.assembly.modifyCurrent (·.append (.text turn.keptText turn.run.position)) := by
  have isFirst : turn.assembly.siblings.isEmpty = turn.assembly.current.innermost.latest.isEmpty := by
    simp [Assembly.siblings, OpenElement.children]
  have isLast : turn.opening?.isNone = decide (turn.run.ending ≠ .openingTag) := by
    rw [Bool.eq_iff_iff, decide_eq_true_iff, Option.isNone_iff_eq_none]
    exact turn.ending_run.symm
  unfold withText Assembly.addText keptText
  rw [isFirst, isLast]

theorem lineage_withText (turn : Turn) : turn.withText.lineage = turn.assembly.lineage := by
  rw [withText_eq]
  split
  · rfl
  · rw [Assembly.lineage_modifyCurrent, Scope.lineage_append, Assembly.lineage]

theorem siblings_withText (turn : Turn) :
    turn.withText.siblings = turn.assembly.siblings ++ turn.text := by
  rw [withText_eq, text]
  split
  · rw [List.append_nil]
  · rw [Assembly.siblings, Assembly.current_modifyCurrent, Scope.children_innermost_append]
    rfl

theorem grown_withText (turn : Turn) : turn.assembly.Grown turn.withText turn.text [] := by
  rw [withText_eq, text]
  split
  · exact Assembly.grown_of_families_eq (.refl _)
  · obtain ⟨others, now, appended, -⟩ := turn.assembly.exists_families_eq
    exact ⟨others, .of_eq now, appended _⟩

theorem represents_withText {arena : Arena} (represents : arena.Represents start turn.assembly) :
    (arena.addText turn.run).Represents start turn.withText :=
  represents.addText turn.run

/-- One turn makes one family grow and may begin another one. -/
theorem grown_next? {arena : Arena} (represents : arena.Represents start turn.assembly)
    (follows : turn.next? = some next) :
    turn.assembly.Grown next.assembly turn.added turn.begun := by
  have records := (represents_withText represents).records
  have goesOn {more begun} (grown : turn.withText.Grown next.assembly more begun) :=
    turn.grown_withText.trans grown turn.lineage_withText turn.siblings_withText
  unfold added begun
  rcases next?_cases follows with ⟨opening, body, isTag, opens, -⟩ | ⟨closing, noTag, closes, -⟩
  · rw [isTag]
    have grown := Assembly.grown_openTag records opens
    rw [turn.lineage_withText] at grown
    exact goesOn grown
  · rw [noTag]
    exact goesOn (Assembly.grown_of_families_eq (Assembly.families_closeWithin records closes))

theorem exists_represents_next? {arena : Arena} (represents : arena.Represents start turn.assembly)
    (follows : turn.next? = some next) :
    ∃ arena : Arena, arena.Represents start next.assembly := by
  have represents := represents_withText represents
  rcases next?_cases follows with ⟨opening, body, -, opens, -⟩ | ⟨closing, -, closes, -⟩
  · have agree := represents.openTag opening body
    rw [opens] at agree
    obtain ⟨arena, -, represents'⟩ := agree.exists_left
    exact ⟨arena, represents'⟩
  · have agree := represents.step (.closing closing)
    rw [Assembly.step, closes] at agree
    obtain ⟨arena, -, represents'⟩ := agree.exists_left
    exact ⟨arena, represents'⟩

theorem exists_represents {arena : Arena} (represents : arena.Represents start turn.assembly) :
    ∀ later ∈ turn.onwards, ∃ arena : Arena, arena.Represents start later.assembly :=
  of_mem_onwards ⟨arena, represents⟩ fun _ _ _ ⟨_, represents⟩ follows =>
    exists_represents_next? represents follows

/-- So it is at last what is counted of the families at the beginning and of all that begin later. -/
theorem perm_filterMap_families {β : Type} {arena : Arena} {final : Assembly}
    {counted : Family → Option β} (represents : arena.Represents start turn.assembly)
    (run : turn.place.tokens.foldlM Assembly.step turn.assembly = .ok final)
    (stays : ∀ later ∈ turn.onwards,
      counted ⟨later.assembly.lineage, later.assembly.siblings ++ later.added⟩ =
        counted ⟨later.assembly.lineage, later.assembly.siblings⟩) :
    (final.families.filterMap counted).Perm (turn.assembly.families.filterMap counted ++
      turn.onwards.flatMap fun later => later.begun.filterMap counted) := by
  refine perm_of_foldlM (·.families.filterMap counted) run (fun later member next follows => ?_)
    fun last member noTag => ?_
  · obtain ⟨arena, represents⟩ := exists_represents represents later member
    exact (grown_next? represents follows).perm_filterMap (stays later member)
  · have grown : last.assembly.Grown last.withText last.added last.begun := by
      have grown := last.grown_withText
      rw [added, begun, noTag]
      simpa using grown
    exact grown.perm_filterMap (stays last member)

end Turn

namespace Template

variable {source : String} {start : Position} {sourcePath : Option String} {template : Template}

theorem exists_represents_turn {turn : Turn} (member : turn ∈ turns source start) :
    ∃ arena : Arena, arena.Represents start turn.assembly :=
  Turn.exists_represents (Arena.represents_initial start) turn member

theorem grown_last {last : Turn} (member : last ∈ turns source start)
    (noTag : last.opening? = none) : ∃ others,
      last.assembly.families.Perm (⟨last.assembly.lineage, last.assembly.siblings⟩ :: others) ∧
      (last.withText.finish sourcePath).families.Perm
        (⟨last.assembly.lineage, last.assembly.siblings ++ last.added⟩ :: others) := by
  obtain ⟨arena, represents⟩ := exists_represents_turn member
  have records := (Turn.represents_withText represents).records
  obtain ⟨others, before, after⟩ := last.grown_withText
  refine ⟨others, before, (Assembly.families_finish records sourcePath).trans ?_⟩
  rw [Turn.added, noTag]
  simpa using after

/-- What holds of the families that turns begin, and of a family that grows, holds of all families of
a template. -/
theorem of_mem_families {Holds : Family → Prop} (isParsed : parse source start sourcePath = .ok template)
    (isMain : Holds ⟨[.bare "" start], []⟩)
    (begins : ∀ turn ∈ turns source start, ∀ family ∈ turn.begun, Holds family)
    (grows : ∀ turn ∈ turns source start,
      Holds ⟨turn.assembly.lineage, turn.assembly.siblings⟩ →
        Holds ⟨turn.assembly.lineage, turn.assembly.siblings ++ turn.added⟩) :
    ∀ family ∈ template.families, Holds family := by
  have holds : ∀ turn ∈ turns source start, ∀ family ∈ turn.assembly.families, Holds family := by
    refine Turn.of_mem_onwards ?_ fun turn isTurn next holds follows => ?_
    · exact List.forall_mem_singleton.mpr isMain
    · obtain ⟨arena, represents⟩ := exists_represents_turn isTurn
      obtain ⟨others, before, after⟩ := Turn.grown_next? represents follows
      intro family member
      rcases List.mem_cons.mp (after.mem_iff.mp member) with rfl | member
      · exact grows turn isTurn (holds _ (before.mem_iff.mpr List.mem_cons_self))
      · rcases List.mem_append.mp member with isBegun | isOther
        · exact begins turn isTurn family isBegun
        · exact holds family (before.mem_iff.mpr (.tail _ isOther))
  obtain ⟨last, isLast, noTag, rfl⟩ := exists_last_turn isParsed
  obtain ⟨others, before, after⟩ := grown_last isLast noTag
  intro family member
  rcases List.mem_cons.mp (after.mem_iff.mp member) with rfl | isOther
  · exact grows last isLast (holds last isLast _ (before.mem_iff.mpr List.mem_cons_self))
  · exact holds last isLast family (before.mem_iff.mpr (.tail _ isOther))

/-- If at most one thing is counted of each family, and it does not change as the family grows, it is
counted of the families that turns begin. -/
theorem perm_filterMap_families {β : Type} {counted : Family → Option β} {begins : Turn → Option β}
    (isParsed : parse source start sourcePath = .ok template)
    (noMain : counted ⟨[.bare "" start], []⟩ = none)
    (stays : ∀ turn ∈ turns source start,
      counted ⟨turn.assembly.lineage, turn.assembly.siblings ++ turn.added⟩ =
        counted ⟨turn.assembly.lineage, turn.assembly.siblings⟩)
    (begun : ∀ turn : Turn, turn.begun.filterMap counted = (begins turn).toList) :
    (template.families.filterMap counted).Perm ((turns source start).filterMap begins) := by
  obtain ⟨final, run, rfl⟩ := exists_run isParsed
  have initial := Arena.represents_initial start
  have agree := initial.foldlM (Turn.initial source start).place.tokens
  rw [show (Assembly.initial start) = (Turn.initial source start).assembly from rfl, run] at agree
  obtain ⟨arena, -, represents⟩ := agree.exists_left
  have counts := Turn.perm_filterMap_families initial run stays
  have main : (Turn.initial source start).assembly.families = [⟨[.bare "" start], []⟩] := rfl
  rw [main, List.filterMap_cons_none noMain, List.filterMap_nil, List.nil_append, funext begun,
    ← List.filterMap_eq_flatMap_toList] at counts
  exact ((Assembly.families_finish represents.records sourcePath).filterMap counted).trans counts

end Template

end TemplateMarkup
