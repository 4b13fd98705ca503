import TemplateMarkup.Proofs.Assembly.OpenTags

/-!
# What is collected

At most one script, style sheet or text with property types is collected in a turn.  The buckets have
all scripts and style sheets that the turns have put into them.  A component has a place for one text
with property types only, and what is there is what was put there last.
-/

namespace TemplateMarkup

namespace Destination

/-- A script or a style sheet goes into a bucket. -/
def isAsset : Destination → Bool
  | .script _ _ => true
  | .style _ _ => true
  | _ => false

def propTypes? : Destination → Option String
  | .propTypes text => some text
  | _ => none

theorem ofElement_of_not_placed {tag : Tag} (body : Option RawBody)
    (notPlaced : (tag.name == "link" || TagName.hasForeignBody tag.name) = false) :
    ofElement tag body = .tree := by
  obtain ⟨notLink, notForeign⟩ := Bool.or_eq_false_iff.mp notPlaced
  obtain ⟨notScript, notStyle⟩ := Bool.or_eq_false_iff.mp notForeign
  rw [ofElement, notLink, notForeign, notScript, notStyle]
  rfl

end Destination

/-- The scripts and style sheets of a bucket of the given name. -/
def Bucket.assets (name : String) (bucket : Bucket) : List Destination :=
  bucket.scripts.map (.script name) ++ bucket.styles.map (.style name)

/-- The scripts and style sheets of all buckets. -/
def NameMap.assets (buckets : NameMap Bucket) : List Destination :=
  buckets.entries.flatMap fun entry => entry.2.assets entry.1

theorem NameMap.assets_update (buckets : NameMap Bucket) {name : String} {change : Bucket → Bucket}
    {asset : Destination}
    (adds : ∀ bucket, ((change bucket).assets name).Perm (bucket.assets name ++ [asset])) :
    (buckets.update name .empty change).assets.Perm (buckets.assets ++ [asset]) := by
  obtain ⟨others, before, after⟩ := buckets.exists_perm_insert name
  have gathered : (((buckets.find? name).toList.map (name, ·)).flatMap fun entry =>
      entry.2.assets entry.1) = ((buckets.find? name).getD .empty).assets name := by
    cases buckets.find? name with
    | none => rfl
    | some bucket => exact List.append_nil _
  have before := before.flatMap_right fun entry => entry.2.assets entry.1
  rw [List.flatMap_append, gathered] at before
  refine ((after _).flatMap_right _).trans ?_
  refine ((adds _).append_right _).trans ?_
  refine .trans ?_ (before.symm.append_right _)
  rw [List.append_assoc, List.append_assoc]
  exact List.perm_append_comm.append_left _

namespace Scope

theorem propTypes_closeMany (count : Nat) (scope : Scope) :
    (closeMany count scope).propTypes = scope.propTypes := by
  induction count generalizing scope with
  | zero => rfl
  | succ count ih => exact (ih scope.closeInnermost).trans scope.flags_closeInnermost.2.2

end Scope

namespace Assembly

variable {assembly next : Assembly} {opening : OpeningTag} {body : Option RawBody}

/-- The name of the innermost component, or none if that is the file's own markup. -/
def currentName (assembly : Assembly) : Option String := assembly.inline.head?.map Prod.fst

theorem currentName_modifyCurrent (assembly : Assembly) (change : Scope → Scope) :
    (assembly.modifyCurrent change).currentName = assembly.currentName := by
  rcases assembly with ⟨main, inline, components, buckets, imports⟩
  cases inline <;> rfl

/-- A text run is added to a tree. -/
theorem exists_addText_eq (assembly : Assembly) (run : TextRun) : ∃ change,
    assembly.addText run = assembly.modifyCurrent change ∧
      ∀ scope, (change scope).propTypes = scope.propTypes := by
  unfold addText
  dsimp only
  generalize (if assembly.keepsWhitespace = true then run.text else _) = text
  split
  · exact ⟨_, assembly.modifyCurrent_self.symm, fun _ => rfl⟩
  · exact ⟨_, rfl, fun scope => (scope.flags_append _).2.2⟩

/-- So is an element that is neither collected nor a component. -/
theorem exists_addElement_eq (assembly : Assembly) (opening : OpeningTag) (body : Option RawBody) :
    ∃ change, assembly.addElement opening body = assembly.modifyCurrent change ∧
      ∀ scope, (change scope).propTypes = scope.propTypes ∧
        (change scope).root.tag = scope.root.tag := by
  obtain ⟨note, noted, keeps⟩ : ∃ note,
      (if opening.tag.name == "slot" then assembly.modifyCurrent (·.recordSlot opening.tag)
        else assembly) = assembly.modifyCurrent note ∧
      ∀ scope, (note scope).propTypes = scope.propTypes ∧
        (note scope).root.tag = scope.root.tag := by
    split
    · refine ⟨_, rfl, fun scope => ?_⟩
      unfold Scope.recordSlot
      split <;> exact ⟨rfl, rfl⟩
    · exact ⟨_, assembly.modifyCurrent_self.symm, fun _ => ⟨rfl, rfl⟩⟩
  unfold addElement
  rw [noted]
  dsimp only
  split
  · refine ⟨_, assembly.modifyCurrent_modifyCurrent _ _, fun scope => ?_⟩
    obtain ⟨propTypes, root⟩ := keeps scope
    exact ⟨((note scope).flags_append _).2.2.trans propTypes,
      ((note scope).tags_append _).1.trans root⟩
  · exact ⟨_, assembly.modifyCurrent_modifyCurrent _ _, keeps⟩

theorem buckets_modifyCurrent (assembly : Assembly) (change : Scope → Scope) :
    (assembly.modifyCurrent change).buckets = assembly.buckets := by
  unfold modifyCurrent
  split <;> rfl

theorem buckets_closeScopes (count : Nat) (assembly : Assembly) :
    (closeScopes count assembly).buckets = assembly.buckets := by
  induction count generalizing assembly with
  | zero => rfl
  | succ count ih =>
      rw [closeScopes, ih, closeScope]
      split <;> rfl

theorem buckets_openComponent {name : String}
    (opens : assembly.openComponent name opening = .ok next) : next.buckets = assembly.buckets := by
  unfold openComponent at opens
  split at opens
  · cases opens
  · cases opens
    split <;> rfl

theorem perm_assets_place (assembly : Assembly) (tag : Tag) (body : Option RawBody) :
    (assembly.place tag body).buckets.assets.Perm (assembly.buckets.assets ++
      ((some (Destination.ofElement tag body)).filter (·.isAsset)).toList) := by
  have nothing {buckets : NameMap Bucket} (same : buckets = assembly.buckets) :
      buckets.assets.Perm (assembly.buckets.assets ++ []) := by
    rw [same, List.append_nil]
  unfold place
  cases Destination.ofElement tag body with
  | tree => exact nothing (assembly.buckets_modifyCurrent _)
  | imports imported => exact nothing rfl
  | script bucket script =>
      refine assembly.buckets.assets_update fun gathered => ?_
      rw [Bucket.assets, Bucket.assets, List.map_append, List.append_assoc, List.append_assoc]
      exact List.perm_append_comm.append_left _
  | style bucket style =>
      refine assembly.buckets.assets_update fun gathered => .of_eq ?_
      rw [Bucket.assets, Bucket.assets, List.map_append, List.append_assoc]
      rfl
  | propTypes text => exact nothing (assembly.buckets_modifyCurrent _)
  | nowhere => exact nothing rfl

theorem perm_assets_openTag (opens : assembly.openTag opening body = .ok next) :
    next.buckets.assets.Perm (assembly.buckets.assets ++
      ((some (Destination.ofElement opening.tag body)).filter (·.isAsset)).toList) := by
  unfold openTag at opens
  split at opens
  · cases opens
    exact assembly.perm_assets_place opening.tag body
  · next notPlaced =>
      have same : next.buckets = assembly.buckets := by
        split at opens
        · exact buckets_openComponent opens
        · cases opens
          obtain ⟨change, added, -⟩ := assembly.exists_addElement_eq opening body
          rw [added, buckets_modifyCurrent]
      rw [same, Destination.ofElement_of_not_placed body (by simpa using notPlaced)]
      exact .of_eq (List.append_nil _).symm

/-- Each component, open or not, has the property types that are given for its name. -/
structure HasPropTypes (types : Option String → Option String) (assembly : Assembly) : Prop where
  main : assembly.main.propTypes = types none
  inline : ∀ opened ∈ assembly.inline, opened.2.propTypes = types (some opened.1)
  closed : ∀ {name component}, (name, some component) ∈ assembly.components.entries →
    component.propTypes = types (some name)
  undeclared : ∀ name ∉ assembly.components.names, types (some name) = none

namespace HasPropTypes

variable {types : Option String → Option String}

theorem initial (start : Position) : (initial start).HasPropTypes fun _ => none where
  main := rfl
  inline := nofun
  closed := nofun
  undeclared _ _ := rfl

theorem modifyCurrent_of_same (has : assembly.HasPropTypes types) {change : Scope → Scope}
    (same : (change assembly.current).propTypes = assembly.current.propTypes) :
    (assembly.modifyCurrent change).HasPropTypes types := by
  rcases assembly with ⟨main, inline, components, buckets, imports⟩
  cases inline with
  | nil => exact ⟨same.trans has.main, nofun, has.closed, has.undeclared⟩
  | cons opened outer =>
      refine ⟨has.main, List.forall_mem_cons.mpr ⟨?_, fun opened isOuter => ?_⟩, has.closed,
        has.undeclared⟩
      · exact same.trans (has.inline opened List.mem_cons_self)
      · exact has.inline opened (.tail _ isOuter)

/-- Only the innermost component gets new property types. -/
theorem setPropTypes {start : Position} {appended : List (Option String × NodeHead)}
    (has : assembly.HasPropTypes types) (records : Arena.Records start appended assembly)
    {types' : Option String → Option String} {text : String}
    (new : types' assembly.currentName = some text)
    (old : ∀ name, name ≠ assembly.currentName → types' name = types name) :
    (assembly.modifyCurrent fun scope => { scope with propTypes := some text }).HasPropTypes
      types' := by
  rcases assembly with ⟨main, inline, components, buckets, imports⟩
  cases inline with
  | nil =>
      have same (name : String) : types' (some name) = types (some name) := old (some name) nofun
      exact ⟨new.symm, nofun, fun member => (has.closed member).trans (same _).symm,
        fun name isNew => (same name).trans (has.undeclared name isNew)⟩
  | cons opened outer =>
      obtain ⟨current, scope⟩ := opened
      obtain ⟨notOuter, -⟩ := List.nodup_cons.mp records.distinct
      have isOpen : (current, none) ∈ components.entries :=
        (records.isOpen current).mpr List.mem_cons_self
      have same {name : String} (different : name ≠ current) :
          types' (some name) = types (some name) :=
        old (some name) fun isCurrent => different (Option.some.inj isCurrent)
      refine ⟨has.main.trans (old none nofun).symm,
        List.forall_mem_cons.mpr ⟨new.symm, fun opened isOuter => ?_⟩,
        fun {name component} member => ?_, fun name isNew => ?_⟩
      · have different : opened.1 ≠ current := fun isCurrent =>
          notOuter (List.mem_map.mpr ⟨opened, isOuter, isCurrent⟩)
        exact (has.inline opened (.tail _ isOuter)).trans (same different).symm
      · -- A component with a value is not open, so it is not the innermost one.
        have different : name ≠ current := by
          rintro rfl
          cases NameMap.eq_of_mem_entries isOpen member
        exact (has.closed member).trans (same different).symm
      · have different : name ≠ current := by
          rintro rfl
          exact isNew (List.mem_map_of_mem isOpen)
        exact (same different).trans (has.undeclared name isNew)

theorem closeScope (has : assembly.HasPropTypes types) : assembly.closeScope.HasPropTypes types := by
  rcases assembly with ⟨main, inline, components, buckets, imports⟩
  cases inline with
  | nil => exact has
  | cons opened outer =>
      obtain ⟨current, scope⟩ := opened
      refine ⟨has.main, fun opened isOuter => has.inline opened (.tail _ isOuter),
        fun {name component} member => ?_, fun name isNew => has.undeclared name fun isOld => ?_⟩
      · rcases NameMap.mem_entries_insert_iff.mp member with ⟨rfl, same⟩ | ⟨-, member⟩
        · cases same
          exact (scope.propTypes_closeMany _).trans (has.inline _ List.mem_cons_self)
        · exact has.closed member
      · exact isNew (NameMap.mem_names_insert.mpr (.inr isOld))

theorem closeScopes (has : assembly.HasPropTypes types) (count : Nat) :
    (closeScopes count assembly).HasPropTypes types := by
  induction count generalizing assembly with
  | zero => exact has
  | succ count ih => exact ih has.closeScope

theorem closeWithin (has : assembly.HasPropTypes types) {closing : ClosingTag}
    {scopes : List (String × Scope)} (closes : closeWithin closing scopes assembly = .ok next) :
    next.HasPropTypes types := by
  obtain ⟨count, depth, rfl⟩ := exists_of_closeWithin closes
  exact (has.closeScopes count).modifyCurrent_of_same (Scope.propTypes_closeMany depth _)

/-- A new component has no property types. -/
theorem openComponent (has : assembly.HasPropTypes types) {name : String}
    (opens : assembly.openComponent name opening = .ok next) : next.HasPropTypes types := by
  unfold Assembly.openComponent at opens
  split at opens
  · cases opens
  · next notDeclared =>
      have isNew : name ∉ assembly.components.names := fun declared =>
        notDeclared (NameMap.contains_iff.mpr declared)
      have opened : Assembly.HasPropTypes types { assembly with
          inline := (name, .ofRoot opening.tag) :: assembly.inline
          components := assembly.components.insert name none } := by
        refine ⟨has.main, List.forall_mem_cons.mpr ⟨(has.undeclared name isNew).symm, has.inline⟩,
          fun member => ?_, fun other isNew => has.undeclared other fun isOld => ?_⟩
        · rcases NameMap.mem_entries_insert_iff.mp member with ⟨-, same⟩ | ⟨-, member⟩
          · cases same
          · exact has.closed member
        · exact isNew (NameMap.mem_names_insert.mpr (.inr isOld))
      cases opens
      split
      · exact opened.closeScope
      · exact opened

theorem openTag {start : Position} {appended : List (Option String × NodeHead)}
    (has : assembly.HasPropTypes types) (records : Arena.Records start appended assembly)
    (opens : assembly.openTag opening body = .ok next) :
    next.HasPropTypes fun name =>
      (if assembly.currentName = name then (Destination.ofElement opening.tag body).propTypes?
        else none).or (types name) := by
  have unchanged (noTypes : (Destination.ofElement opening.tag body).propTypes? = none) :
      (fun name => (if assembly.currentName = name then
        (Destination.ofElement opening.tag body).propTypes? else none).or (types name)) = types := by
    funext name
    rw [noTypes, ite_self, Option.none_or]
  unfold Assembly.openTag at opens
  split at opens
  · cases opens
    unfold place
    cases goes : Destination.ofElement opening.tag body with
    | propTypes text =>
        refine has.setPropTypes records ?_ fun name different => ?_
        · rw [if_pos rfl]
          rfl
        · rw [if_neg different.symm, Option.none_or]
    | tree =>
        rw [goes] at unchanged
        rw [unchanged rfl]
        exact has.modifyCurrent_of_same (assembly.current.flags_append _).2.2
    | _ =>
        rw [goes] at unchanged
        rw [unchanged rfl]
        exact ⟨has.main, has.inline, has.closed, has.undeclared⟩
  · next notPlaced =>
      rw [unchanged (by
        rw [Destination.ofElement_of_not_placed body (by simpa using notPlaced)]
        rfl)]
      split at opens
      · exact has.openComponent opens
      · cases opens
        obtain ⟨change, added, keeps⟩ := assembly.exists_addElement_eq opening body
        rw [added]
        exact has.modifyCurrent_of_same (keeps _).1

end HasPropTypes

end Assembly

namespace Turn

/-- Where the element of the turn's opening tag goes. -/
def destination? (turn : Turn) : Option Destination :=
  turn.opening?.map fun start => .ofElement start.1.tag start.2

/-- The script or style sheet that the turn puts into a bucket. -/
def asset? (turn : Turn) : Option Destination := turn.destination?.filter (·.isAsset)

/-- The property types that the turn puts down for the component of a name. -/
def propTypes? (name : Option String) (turn : Turn) : Option String :=
  if turn.assembly.currentName = name then turn.destination?.bind (·.propTypes?) else none

variable {start : Position} {turn : Turn} {arena : Arena} {final : Assembly}

theorem buckets_withText (turn : Turn) : turn.withText.buckets = turn.assembly.buckets := by
  obtain ⟨change, added, -⟩ := turn.assembly.exists_addText_eq turn.run
  rw [withText, added, Assembly.buckets_modifyCurrent]

theorem perm_assets (run : turn.place.tokens.foldlM Assembly.step turn.assembly = .ok final) :
    final.buckets.assets.Perm
      (turn.assembly.buckets.assets ++ turn.onwards.flatMap (·.asset?.toList)) := by
  refine perm_of_foldlM (·.buckets.assets) run (fun later _ next follows => ?_) fun last _ noTag => ?_
  · rw [← later.buckets_withText, asset?, destination?]
    rcases next?_cases follows with ⟨opening, body, isTag, opens, -⟩ | ⟨closing, noTag, closes, -⟩
    · rw [isTag]
      exact Assembly.perm_assets_openTag opens
    · obtain ⟨count, depth, same⟩ := Assembly.exists_of_closeWithin closes
      rw [noTag, same, Assembly.buckets_modifyCurrent, Assembly.buckets_closeScopes]
      exact .of_eq (List.append_nil _).symm
  · rw [last.buckets_withText, asset?, destination?, noTag]
    exact .of_eq (List.append_nil _).symm

theorem hasPropTypes_withText {types : Option String → Option String}
    (has : turn.assembly.HasPropTypes types) :
    turn.withText.HasPropTypes types ∧ turn.withText.currentName = turn.assembly.currentName := by
  obtain ⟨change, added, keeps⟩ := turn.assembly.exists_addText_eq turn.run
  rw [withText, added]
  exact ⟨has.modifyCurrent_of_same (keeps _), turn.assembly.currentName_modifyCurrent change⟩

theorem hasPropTypes_next? {types : Option String → Option String} {next : Turn}
    (represents : arena.Represents start turn.assembly) (has : turn.assembly.HasPropTypes types)
    (follows : turn.next? = some next) :
    next.assembly.HasPropTypes fun name => (turn.propTypes? name).or (types name) := by
  obtain ⟨has, sameName⟩ := hasPropTypes_withText has
  have records := (represents_withText represents).records
  unfold propTypes? destination?
  rcases next?_cases follows with ⟨opening, body, isTag, opens, -⟩ | ⟨closing, noTag, closes, -⟩
  · rw [isTag, ← sameName]
    exact has.openTag records opens
  · rw [noTag]
    simpa using has.closeWithin closes

/-- Each component has the latest of the property types that the turns have put down for it. -/
theorem hasPropTypes_foldlM {types : Option String → Option String}
    (represents : arena.Represents start turn.assembly) (has : turn.assembly.HasPropTypes types)
    (run : turn.place.tokens.foldlM Assembly.step turn.assembly = .ok final) :
    final.HasPropTypes fun name =>
      (turn.onwards.filterMap (·.propTypes? name)).getLast?.or (types name) := by
  -- What the first turn puts down becomes part of what the later turns start from.
  fun_induction onwards turn generalizing arena types with
  | case1 turn isLast =>
      rcases next?_of_foldlM run with ⟨-, noTag, rfl⟩ | ⟨next, follows, -⟩
      · simpa [propTypes?, destination?, noTag] using (hasPropTypes_withText has).1
      · cases isLast.symm.trans follows
  | case2 turn next follows ih =>
      rcases next?_of_foldlM run with ⟨isLast, -, -⟩ | ⟨next', follows', later⟩
      · cases isLast.symm.trans follows
      · cases follows.symm.trans follows'
        obtain ⟨arena', represents'⟩ := exists_represents_next? represents follows
        have has := ih represents' (hasPropTypes_next? represents has follows) later
        have latest (name : Option String) :
            ((turn :: next.onwards).filterMap (·.propTypes? name)).getLast? =
              (next.onwards.filterMap (·.propTypes? name)).getLast?.or (turn.propTypes? name) := by
          rw [← List.singleton_append, List.filterMap_append, List.getLast?_append]
          cases given : turn.propTypes? name <;> simp [given]
        simp only [latest, Option.or_assoc]
        exact has

end Turn

end TemplateMarkup
