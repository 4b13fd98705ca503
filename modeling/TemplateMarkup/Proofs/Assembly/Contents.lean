import TemplateMarkup.Proofs.Assembly.Recording

/-!
# What is collected is not empty

A script, a style sheet, an import or a text with property types is collected only if there is
something in it, and everything that names it has a name.  So nothing empty comes into a bucket, and
there is no bucket for nothing.
-/

namespace TemplateMarkup

/-- The text of a script or a style sheet, or the path where it is. -/
def AssetSource.text : AssetSource → String
  | .content written => written
  | .path written => written

theorem ne_empty_of_filter {given : Option String} {text : String}
    (isText : given.filter (!·.isEmpty) = some text) : text ≠ "" := by
  obtain ⟨-, notEmpty⟩ := Option.filter_eq_some_iff.mp isText
  simpa using notEmpty

theorem ne_empty_of_or_filter {first second : Option String} {text : String}
    (isText : (first.filter (!·.isEmpty)).or (second.filter (!·.isEmpty)) = some text) :
    text ≠ "" := by
  rcases Option.or_eq_some_iff.mp isText with isFirst | ⟨-, isSecond⟩
  · exact ne_empty_of_filter isFirst
  · exact ne_empty_of_filter isSecond

theorem Tag.ne_empty_of_nonemptyValue? {tag : Tag} {name value : String}
    (isValue : tag.nonemptyValue? name = some value) : value ≠ "" :=
  ne_empty_of_filter isValue

theorem Tag.ne_empty_of_argument? {tag : Tag} {name argument : String}
    (isArgument : tag.argument? name = some argument) : argument ≠ "" := by
  obtain ⟨directive, -, isArgument⟩ := Option.bind_eq_some_iff.mp isArgument
  exact ne_empty_of_or_filter isArgument

theorem Tag.ne_empty_of_componentName? {tag : Tag} {name : String}
    (isName : tag.componentName? = some name) : name ≠ "" := by
  unfold componentName? at isName
  split at isName
  · exact tag.ne_empty_of_argument? isName
  · cases isName

namespace Asset

def source : Asset → AssetSource
  | .script added => added.source
  | .style added => added.source

/-- There is something in a script or a style sheet, and a script has a scope. -/
def IsFilled : Asset → Prop
  | .script added => added.source.text ≠ "" ∧ added.scope ≠ ""
  | .style added => added.source.text ≠ ""

end Asset

/-- There is something in an import. -/
structure ComponentImport.IsFilled (imported : ComponentImport) : Prop where
  path : imported.path ≠ ""
  name : imported.name ≠ some ""

namespace Destination

/-- There is something in whatever goes to a destination. -/
def IsFilled : Destination → Prop
  | .tree => True
  | .imports imported => imported.IsFilled
  | .script bucket added => bucket ≠ "" ∧ (Asset.script added).IsFilled
  | .style bucket added => bucket ≠ "" ∧ (Asset.style added).IsFilled
  | .propTypes text => text ≠ ""
  | .nowhere => True

theorem bucketName_ne_empty (tag : Tag) : bucketName tag ≠ "" := by
  unfold bucketName
  cases given : tag.argument? "bucket" with
  | none => decide
  | some name => exact tag.ne_empty_of_argument? given

theorem scriptScope_ne_empty (tag : Tag) : scriptScope tag ≠ "" := by
  unfold scriptScope
  dsimp only
  cases given : (tag.directive? "scope").bind fun directive =>
      (directive.modifier.filter (!·.isEmpty)).or (directive.value.filter (!·.isEmpty)) with
  | none => decide
  | some name =>
      obtain ⟨directive, -, isName⟩ := Option.bind_eq_some_iff.mp given
      exact ne_empty_of_or_filter isName

theorem isFilled_ofLink (tag : Tag) : (ofLink tag).IsFilled := by
  unfold ofLink
  split
  · trivial
  · next href isPath =>
      split
      · refine ⟨tag.ne_empty_of_nonemptyValue? isPath, fun isEmpty => ?_⟩
        exact tag.ne_empty_of_nonemptyValue? isEmpty rfl
      · split
        · have isFilled : (AssetSource.path href).text ≠ "" := tag.ne_empty_of_nonemptyValue? isPath
          exact ⟨bucketName_ne_empty tag, isFilled⟩
        · trivial

theorem isFilled_ofScript (tag : Tag) (body : Option RawBody) : (ofScript tag body).IsFilled := by
  unfold ofScript
  dsimp only
  split
  · trivial
  · split
    · trivial
    · split
      · next isTypes =>
          have notEmpty := ((Bool.and_eq_true _ _).mp isTypes).2
          simpa [IsFilled] using notEmpty
      · split
        · next path isPath _ _ =>
            have isFilled : (AssetSource.path path).text ≠ "" :=
              tag.ne_empty_of_nonemptyValue? isPath
            exact ⟨bucketName_ne_empty tag, isFilled, scriptScope_ne_empty tag⟩
        · split
          · trivial
          · next read _ _ _ notEmpty =>
              have isFilled : (AssetSource.content read.trimmed).text ≠ "" := by
                simpa [AssetSource.text] using notEmpty
              exact ⟨bucketName_ne_empty tag, isFilled, scriptScope_ne_empty tag⟩
        · trivial

theorem isFilled_ofStyle (tag : Tag) (body : Option RawBody) : (ofStyle tag body).IsFilled := by
  unfold ofStyle
  split
  · trivial
  · split
    · trivial
    · next read notEmpty =>
        have isFilled : (AssetSource.content read.trimmed).text ≠ "" := by
          simpa [AssetSource.text] using notEmpty
        exact ⟨bucketName_ne_empty tag, isFilled⟩

theorem isFilled_ofElement (tag : Tag) (body : Option RawBody) : (ofElement tag body).IsFilled := by
  unfold ofElement
  split
  · exact isFilled_ofLink tag
  · split
    · trivial
    · split
      · exact isFilled_ofScript tag body
      · split
        · exact isFilled_ofStyle tag body
        · trivial

end Destination

namespace Turn

variable {turn : Turn}

theorem isFilled_of_destination? {destination : Destination}
    (goes : turn.destination? = some destination) : destination.IsFilled := by
  obtain ⟨start, -, rfl⟩ := Option.map_eq_some_iff.mp goes
  exact Destination.isFilled_ofElement _ _

theorem isFilled_of_collected? {bucket : String} {asset : Asset}
    (collects : turn.collected? = some (bucket, asset)) : bucket ≠ "" ∧ asset.IsFilled := by
  obtain ⟨destination, goes, isCollected⟩ := Option.bind_eq_some_iff.mp collects
  have isFilled := isFilled_of_destination? goes
  cases destination with
  | script bucket added =>
      cases isCollected
      exact isFilled
  | style bucket added =>
      cases isCollected
      exact isFilled
  | _ => cases isCollected

theorem isFilled_of_imported? {imported : ComponentImport}
    (imports : turn.imported? = some imported) : imported.IsFilled := by
  obtain ⟨destination, goes, isImport⟩ := Option.bind_eq_some_iff.mp imports
  have isFilled := isFilled_of_destination? goes
  cases destination with
  | imports imported =>
      cases isImport
      exact isFilled
  | _ => cases isImport

theorem ne_empty_of_propTypes? {name : Option String} {text : String}
    (isText : turn.propTypes? name = some text) : text ≠ "" := by
  unfold propTypes? at isText
  split at isText
  · obtain ⟨destination, goes, isTypes⟩ := Option.bind_eq_some_iff.mp isText
    have isFilled := isFilled_of_destination? goes
    cases destination with
    | propTypes text =>
        cases isTypes
        exact isFilled
    | _ => cases isTypes
  · cases isText

end Turn

/-- A bucket that is made for an asset has that asset. -/
theorem exists_of_mem_stableGrouping {name : String} {bucket : Bucket}
    {collected : List (String × Asset)} (member : (name, bucket) ∈ stableGrouping collected) :
    ∃ assets, bucket = .ofAssets assets ∧ assets ≠ [] ∧
      ∀ asset ∈ assets, (name, asset) ∈ collected := by
  obtain ⟨name', isName, same⟩ := List.mem_map.mp member
  cases same
  obtain ⟨⟨_, asset⟩, isCollected, rfl⟩ := List.mem_map.mp (List.mem_eraseDups.mp isName)
  refine ⟨_, rfl, List.ne_nil_of_mem (a := asset) ?_, fun asset => mem_of_mem_assetsOf⟩
  exact List.mem_map.mpr ⟨_, List.mem_filter.mpr ⟨isCollected, beq_self_eq_true _⟩, rfl⟩

end TemplateMarkup
