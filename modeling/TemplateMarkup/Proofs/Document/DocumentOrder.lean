import TemplateMarkup.Proofs.Assembly.TurnOrder

/-!
# Document order

Everything in a template comes in the order of its positions.  The nodes of a tree are those that have
been read while its component was the innermost one, so they are in order although other components
may have been read in between.  What is collected is in order within its bucket.
-/

namespace TemplateMarkup

namespace NodeHead

/-- As for two nodes of which the first one may be the root of the file's own markup, which has no
attributes and is where the first node is. -/
def PrecedesWeakly (first later : NodeHead) : Prop :=
  first.position ≤ later.position ∧ ∀ position ∈ first.attributePositions, position < later.position

theorem Precedes.weaken {first later : NodeHead} (precedes : first.Precedes later) :
    first.PrecedesWeakly later :=
  ⟨le_of_lt precedes.1, precedes.2⟩

end NodeHead

theorem Node.map_head_sublist_headsAll (nodes : List Node) :
    (nodes.map head).Sublist (headsAll nodes) := by
  induction nodes with
  | nil => exact .slnil
  | cons node rest ih =>
      rw [headsAll, List.map_cons]
      cases node with
      | text content position => exact ih.cons_cons _
      | element tag children => exact (ih.trans (List.sublist_append_right _ _)).cons_cons _

theorem Node.heads_sublist_headsAll {node : Node} {nodes : List Node} (member : node ∈ nodes) :
    node.heads.Sublist (headsAll nodes) := by
  induction member with
  | head => exact List.sublist_append_left _ _
  | tail _ _ ih => exact ih.trans (List.sublist_append_right _ _)

theorem Node.exists_of_mem_familiesAll {above : List Tag} {family : Family} {nodes : List Node}
    (member : family ∈ familiesAll above nodes) : ∃ node ∈ nodes, family ∈ node.families above := by
  induction nodes with
  | nil => cases member
  | cons node rest ih =>
      rcases List.mem_append.mp member with isFirst | isLater
      · exact ⟨node, List.mem_cons_self, isFirst⟩
      · obtain ⟨other, isOther, isThere⟩ := ih isLater
        exact ⟨other, .tail _ isOther, isThere⟩

/-- An element comes before its children among the nodes of a tree. -/
theorem Node.exists_sublist_heads (node : Node) : ∀ above, ∀ family ∈ node.families above,
    ∃ tag, family.lineage.head? = some tag ∧
      (.element tag :: family.children).Sublist node.heads := by
  induction node using Node.induction with
  | text content position => exact fun _ _ => nofun
  | element tag children ih =>
      intro above family member
      rw [families] at member
      rcases List.mem_cons.mp member with rfl | isInside
      · exact ⟨tag, rfl, (map_head_sublist_headsAll children).cons_cons _⟩
      · obtain ⟨child, isChild, isThere⟩ := exists_of_mem_familiesAll isInside
        obtain ⟨own, isOwn, isSublist⟩ := ih child isChild _ family isThere
        refine ⟨own, isOwn, isSublist.trans ?_⟩
        exact (heads_sublist_headsAll isChild).trans (List.sublist_cons_self _ _)

/-- The attributes of the element are in order, and they come before its children. -/
def Family.IsInOrder (family : Family) : Prop :=
  ∀ tag ∈ family.lineage.head?, tag.IsInOrder ∧
    ∀ position ∈ tag.attributePositions, ∀ child ∈ family.children, position < child.position

/-- The nodes of a component are in order, and so are its elements. -/
structure Component.IsInOrder (component : Component) : Prop where
  nodes : (component.nodes.map NodeHead.position).Pairwise (· < ·)
  root : ∀ node ∈ component.nodes, component.root.tag.position ≤ node.position
  elements : ∀ family ∈ component.families, family.IsInOrder

/-- The scripts of a bucket are in order, and so are its style sheets. -/
structure Bucket.IsInOrder (bucket : Bucket) : Prop where
  scripts : (bucket.scripts.map (·.position)).Pairwise (· < ·)
  styles : (bucket.styles.map (·.position)).Pairwise (· < ·)

theorem Asset.position_of_script? {asset : Asset} {added : Script}
    (isScript : asset.script? = some added) :
    added.position = asset.position := by
  cases asset with
  | script other => exact (congrArg (·.position) (Option.some.inj isScript)).symm
  | style other => cases isScript

theorem Asset.position_of_style? {asset : Asset} {added : Style}
    (isStyle : asset.style? = some added) :
    added.position = asset.position := by
  cases asset with
  | script other => cases isStyle
  | style other => exact (congrArg (·.position) (Option.some.inj isStyle)).symm

theorem Bucket.isInOrder_ofAssets {assets : List Asset}
    (sorted : (assets.map Asset.position).Pairwise (· < ·)) : (ofAssets assets).IsInOrder where
  scripts := by
    rw [ofAssets, List.pairwise_map, List.pairwise_filterMap]
    refine (List.pairwise_map.mp sorted).imp fun isLess added isAdded added' isAdded' => ?_
    rwa [Asset.position_of_script? isAdded, Asset.position_of_script? isAdded']
  styles := by
    rw [ofAssets, List.pairwise_map, List.pairwise_filterMap]
    refine (List.pairwise_map.mp sorted).imp fun isLess added isAdded added' isAdded' => ?_
    rwa [Asset.position_of_style? isAdded, Asset.position_of_style? isAdded']

namespace Template

variable {source : String} {start : Position} {sourcePath : Option String} {template : Template}

/-- Everything in a template is in the order of its positions. -/
structure IsInOrder (template : Template) : Prop where
  components : ∀ component ∈ template.components, component.IsInOrder
  /-- No node is where the root of an inline component is. -/
  inline : ∀ component ∈ template.inlineComponents.values, ∀ node ∈ component.nodes,
    component.root.tag.position < node.position
  roots : (template.inlineComponents.values.map (·.root.tag.position)).Pairwise (· < ·)
  imports : (template.imports.map (·.position)).Pairwise (· < ·)
  buckets : ∀ bucket ∈ template.buckets.values, bucket.IsInOrder

/-- All nodes below the main root are read in order. -/
theorem pairwise_nodesRead_turns (source : String) (start : Position) :
    ((turns source start).flatMap Turn.nodesRead).Pairwise NodeHead.Precedes := by
  refine List.pairwise_flatMap.mpr ⟨fun turn _ => turn.pairwise_nodesRead.1, ?_⟩
  refine (Turn.pairwise_covers _).imp ?_
  intro earlier later ordered first isFirst second isSecond
  obtain ⟨-, covers, coversAttributes⟩ := earlier.pairwise_nodesRead.2 first isFirst
  obtain ⟨-, covers', -⟩ := later.pairwise_nodesRead.2 second isSecond
  exact ⟨ordered _ _ covers covers', fun position member =>
    ordered _ _ (coversAttributes position member) covers'⟩

/-- No node is before the main root. -/
theorem pairwise_nodesRead (source : String) (start : Position) :
    (nodesRead source start).Pairwise NodeHead.PrecedesWeakly := by
  refine List.pairwise_cons.mpr ⟨fun node member => ⟨?_, nofun⟩,
    (pairwise_nodesRead_turns source start).imp NodeHead.Precedes.weaken⟩
  obtain ⟨turn, isTurn, isRead⟩ := List.mem_flatMap.mp member
  have fromStart : start ≤ turn.place.position :=
    (Turn.leadsTo_of_mem_onwards turn isTurn).position_le
  exact le_trans fromStart (turn.pairwise_nodesRead.2 node isRead).2.1.1

theorem isInOrder_of_mem_nodesRead : ∀ node ∈ nodesRead source start, node.IsInOrder := by
  refine List.forall_mem_cons.mpr ⟨Tag.isInOrder_bare "" start, fun node member => ?_⟩
  obtain ⟨turn, -, isRead⟩ := List.mem_flatMap.mp member
  exact (turn.pairwise_nodesRead.2 node isRead).1

theorem isInOrder_of_mem_components (isParsed : parse source start sourcePath = .ok template) :
    ∀ component ∈ template.components, component.IsInOrder := by
  intro component isComponent
  obtain ⟨-, isSublist⟩ :=
    Component.inventory_eq_of_isMadeOf (isMadeOf_nodesRead isParsed component isComponent)
  have ordered := (pairwise_nodesRead source start).sublist isSublist
  constructor
  · rw [List.pairwise_map]
    exact ((pairwise_nodesRead_turns source start).sublist
      (nodes_sublist isParsed isComponent)).imp And.left
  · exact fun node member => ((List.pairwise_cons.mp ordered).1 node member).1
  · intro family member tag isOwn
    obtain ⟨own, isOwn', isWithin⟩ := Node.exists_sublist_heads _ _ family member
    cases isOwn'.symm.trans isOwn
    refine ⟨isInOrder_of_mem_nodesRead _ ((isWithin.trans isSublist).subset List.mem_cons_self), ?_⟩
    intro position isPosition child isChild
    have before := (List.pairwise_cons.mp (ordered.sublist isWithin)).1 child isChild
    exact before.2 position isPosition

theorem isInOrder_of_mem_buckets (isParsed : parse source start sourcePath = .ok template) :
    ∀ bucket ∈ template.buckets.values, bucket.IsInOrder := by
  intro bucket isBucket
  obtain ⟨⟨name, _⟩, isEntry, rfl⟩ := List.mem_map.mp isBucket
  rw [entries_buckets isParsed] at isEntry
  obtain ⟨name', -, same⟩ := List.mem_map.mp isEntry
  cases same
  refine Bucket.isInOrder_ofAssets ?_
  rw [assetsOf, List.map_map]
  refine List.Pairwise.sublist ((List.filter_sublist).map _) ?_
  exact Turn.pairwise_filterMap (fun collected : String × Asset => collected.2.position)
    (fun _ _ => Turn.covers_of_collected?) _

/-- What is read is in order. -/
theorem isInOrder_of_parse (isParsed : parse source start sourcePath = .ok template) :
    template.IsInOrder where
  components := isInOrder_of_mem_components isParsed
  inline component isInline node member := by
    have ordered := (pairwise_nodesRead_turns source start).sublist (root_sublist isParsed isInline)
    exact ((List.pairwise_cons.mp ordered).1 node member).1
  roots := by
    have roots : template.inlineComponents.values.map (·.root.tag.position) =
        ((turns source start).filterMap Turn.declared?).map (·.2.position) := by
      rw [← roots_inlineComponents isParsed, NameMap.values, List.map_map, List.map_map]
      rfl
    rw [roots]
    exact Turn.pairwise_filterMap (fun declared : String × Tag => declared.2.position)
      (fun _ _ => Turn.covers_of_declared?) _
  imports := by
    rw [imports_eq isParsed]
    exact Turn.pairwise_filterMap ComponentImport.position (fun _ _ => Turn.covers_of_imported?) _
  buckets := isInOrder_of_mem_buckets isParsed

/-- A component that is declared in an element, line breaks of both kinds, and two buckets. -/
def braidedSource : String :=
  "a\r\n<p :b=\"1\" c><template #component:x>\r\n<link rel=import href=d>e</template>f</p>" ++
    "<template #component:y /><script>g</script>\n<script #bucket:h>i</script><script>j</script>"

/-- The nodes of the element are in order though the component is read between them. -/
theorem isInOrder_braidedSource : ∃ template, parse braidedSource .start none = .ok template ∧
    template.main.nodes.map (·.position) = [⟨1, 1⟩, ⟨2, 1⟩, ⟨3, 37⟩, ⟨3, 85⟩] ∧
    template.inlineComponents.values.map (·.root.tag.position) = [⟨2, 13⟩, ⟨3, 42⟩] ∧
    template.buckets.values.map (·.scripts.map (·.position)) = [[⟨3, 75⟩, ⟨4, 37⟩], [⟨4, 19⟩]] ∧
    template.IsInOrder := by
  have isParsed : (parse braidedSource .start none).map (fun template =>
      (template.main.nodes.map (·.position),
        template.inlineComponents.values.map (·.root.tag.position),
        template.buckets.values.map (·.scripts.map (·.position)))) = .ok
      ([⟨1, 1⟩, ⟨2, 1⟩, ⟨3, 37⟩, ⟨3, 85⟩], [⟨2, 13⟩, ⟨3, 42⟩], [[⟨3, 75⟩, ⟨4, 37⟩], [⟨4, 19⟩]]) := by
    decide +kernel
  obtain ⟨template, isTemplate, summary⟩ := exists_ok_of_map isParsed
  obtain ⟨nodes, rest⟩ := Prod.mk.inj summary
  obtain ⟨roots, scripts⟩ := Prod.mk.inj rest
  exact ⟨template, isTemplate, nodes, roots, scripts, isInOrder_of_parse isTemplate⟩

end Template

end TemplateMarkup
