import TemplateMarkup.Proofs.Assembly.Effects

/-!
# Two assemblies in lockstep

Two templates are put together from the same tokens, on stacks that differ in what is further down.
What a step may do is listed once: it adds something to the innermost open node, changes the innermost
component, opens an element, collects an asset, opens a component, or closes what is open.  A relation
that each of these keeps is kept by every step and so by a run.
-/

namespace TemplateMarkup

/-- A relation that everything a step may do keeps.  Opening and closing lead to related states as long
as they stay inside some set of states. -/
structure Lockstep (inside : FlatAssembly → Prop) (Related : FlatAssembly → FlatAssembly → Prop) :
    Prop where
  mapHolder : ∀ {flat other added change change'}, Related flat other → AddsVisible added change →
    AddsVisible added change' → Related (flat.mapHolder change) (other.mapHolder change')
  modifyComponent : ∀ {flat other change}, Related flat other → KeepsRoot change →
    Related (flat.modifyComponent change) (other.modifyComponent change)
  push : ∀ {flat other} tag, Related flat other →
    Related { flat with frames := .element (.ofTag tag) :: flat.frames }
      { other with frames := .element (.ofTag tag) :: other.frames }
  collect : ∀ {flat other} buckets imports buckets' imports', Related flat other →
    Related { flat with buckets, imports } { other with buckets := buckets', imports := imports' }
  openComponent : ∀ {flat other next name opening}, Related flat other →
    flat.openComponent name opening = .ok next → inside next →
      ∃ next', other.openComponent name opening = .ok next' ∧ Related next next'
  closeTag : ∀ {flat other next closing}, Related flat other →
    flat.closeTag closing = .ok next → inside next →
      ∃ next', other.closeTag closing = .ok next' ∧ Related next next'

namespace Lockstep

variable {inside : FlatAssembly → Prop} {Related : FlatAssembly → FlatAssembly → Prop}
variable {flat other next : FlatAssembly}

theorem append (lockstep : Lockstep inside Related) (related : Related flat other) (node : Node) :
    Related (flat.append node) (other.append node) := by
  rw [FlatAssembly.append_eq_mapHolder, FlatAssembly.append_eq_mapHolder]
  exact lockstep.mapHolder related (.append node) (.append node)

theorem addText (lockstep : Lockstep inside Related) (related : Related flat other)
    (run : TextRun) : Related (flat.addText run) (other.addText run) := by
  obtain ⟨change, adds, added⟩ := flat.exists_addText_eq run
  obtain ⟨change', adds', added'⟩ := other.exists_addText_eq run
  rw [added, added']
  exact lockstep.mapHolder related adds adds'

theorem place (lockstep : Lockstep inside Related) (related : Related flat other) (tag : Tag)
    (body : Option RawBody) : Related (flat.place tag body) (other.place tag body) := by
  rcases FlatAssembly.place_cases tag body with ⟨child, placed⟩ | collected | ⟨text, noted⟩
  · rw [placed, placed]
    exact lockstep.append related child
  · obtain ⟨buckets, imports, placed⟩ := collected flat
    obtain ⟨buckets', imports', placed'⟩ := collected other
    rw [placed, placed']
    exact lockstep.collect buckets imports buckets' imports' related
  · rw [noted, noted]
    exact lockstep.modifyComponent related fun _ _ => rfl

theorem addElement (lockstep : Lockstep inside Related) (related : Related flat other)
    (opening : OpeningTag) (body : Option RawBody) :
    Related (flat.addElement opening body) (other.addElement opening body) := by
  have noted : Related (flat.noteSlot opening.tag) (other.noteSlot opening.tag) := by
    unfold FlatAssembly.noteSlot
    split
    · exact lockstep.modifyComponent related (OpenComponent.keepsRoot_recordSlot _)
    · exact related
  rcases FlatAssembly.addElement_cases opening body with ⟨child, closed⟩ | ⟨-, opened⟩
  · rw [closed, closed]
    exact lockstep.append noted child
  · rw [opened, opened]
    exact lockstep.push opening.tag noted

theorem step (lockstep : Lockstep inside Related) (related : Related flat other) {token : Token}
    (stepped : flat.step token = .ok next) (isInside : inside next) :
    ∃ next', other.step token = .ok next' ∧ Related next next' := by
  cases token with
  | text run =>
      cases stepped
      exact ⟨_, rfl, lockstep.addText related run⟩
  | closing closing => exact lockstep.closeTag related stepped isInside
  | opening opening body =>
      have stepped : flat.openTag opening body = .ok next := stepped
      show ∃ next', other.openTag opening body = .ok next' ∧ _
      rcases FlatAssembly.openTag_cases opening body with placed | ⟨name, -, opened⟩ | added
      · rw [placed] at stepped ⊢
        cases stepped
        exact ⟨_, rfl, lockstep.place related _ _⟩
      · rw [opened] at stepped ⊢
        exact lockstep.openComponent related stepped isInside
      · rw [added] at stepped ⊢
        cases stepped
        exact ⟨_, rfl, lockstep.addElement related _ _⟩

/-- No run leads inside from outside if no step does. -/
theorem inside_of_foldlM
    (wasInside : ∀ {flat next token}, FlatAssembly.step flat token = .ok next → inside next → inside flat)
    {tokens : List Token} (run : tokens.foldlM FlatAssembly.step flat = .ok next)
    (isInside : inside next) : inside flat :=
  holds_of_foldlM (fun state => inside state → inside flat) id
    (fun _ _ _ _ stepped before isInside => before (wasInside stepped isInside)) run isInside

theorem foldlM (lockstep : Lockstep inside Related)
    (wasInside : ∀ {flat next token}, FlatAssembly.step flat token = .ok next → inside next → inside flat)
    (related : Related flat other) {tokens : List Token}
    (run : tokens.foldlM FlatAssembly.step flat = .ok next) (isInside : inside next) :
    ∃ next', tokens.foldlM FlatAssembly.step other = .ok next' ∧ Related next next' := by
  induction tokens generalizing flat other with
  | nil =>
      cases run
      exact ⟨other, rfl, related⟩
  | cons token rest ih =>
      obtain ⟨middle, stepped, later⟩ := exists_of_foldlM_cons run
      obtain ⟨middle', stepped', relatedMiddle⟩ :=
        lockstep.step related stepped (inside_of_foldlM wasInside later isInside)
      obtain ⟨next', later', relatedNext⟩ := ih relatedMiddle later
      exact ⟨next', by rw [List.foldlM_cons, stepped']; exact later', relatedNext⟩

end Lockstep

end TemplateMarkup
