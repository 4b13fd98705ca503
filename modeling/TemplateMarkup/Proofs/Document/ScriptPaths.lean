import TemplateMarkup.Proofs.Document.DocumentOrder

/-!
# Scripts at a path of the project

A script that is taken from a path of the project, and that is neither raw nor rendered, leaves its
tree.  Its path is put into the bucket that the tag names, after everything that earlier tags have put
there.  Only a body with property types keeps the path from being collected: such a body goes to the
component, and of the path nothing remains.
-/

namespace TemplateMarkup

open Destination

/-- The tag is of a script at a path of the project, and the script is neither raw nor rendered. -/
@[mk_iff]
structure Tag.RefersTo (tag : Tag) (path : String) : Prop where
  isScript : tag.name = "script"
  /-- The path is the value of the first `src` attribute. -/
  isPath : tag.value? "src" = some path
  isRelative : path.toList.head? = some '.' ∨ path.toList.head? = some '/'
  notRaw : tag.hasDirective "raw" = false
  notRendered : tag.hasDirective "render" = false

instance (tag : Tag) (path : String) : Decidable (tag.RefersTo path) :=
  decidable_of_iff' _ (tag.refersTo_iff path)

/-- The entry of a script at a path. -/
def Tag.scriptAt (tag : Tag) (path : String) : Script :=
  ⟨.path path, scriptScope tag, tag.position⟩

/-- What remains of a body when it is trimmed.  Without a body that is nothing. -/
def RawBody.trimmedText (body : Option RawBody) : String := (body.map (·.trimmed)).getD ""

/-- The tag asks for property types, and its body has some. -/
def Tag.givesTypes (tag : Tag) (body : Option RawBody) : Bool :=
  tag.hasDirective "types" && !(RawBody.trimmedText body).isEmpty

namespace Tag.RefersTo

variable {tag : Tag} {path : String}

theorem isRelativePath (refers : tag.RefersTo path) : isRelativePath path = true := by
  rcases refers.isRelative with isFirst | isFirst
  · rw [Destination.isRelativePath, isFirst]
    rfl
  · rw [Destination.isRelativePath, isFirst]
    rfl

theorem nonemptyValue? (refers : tag.RefersTo path) : tag.nonemptyValue? "src" = some path := by
  have notEmpty : path.isEmpty = false := by
    rw [Bool.eq_false_iff]
    intro isEmpty
    have isRelative := refers.isRelative
    rw [String.isEmpty_iff.mp isEmpty] at isRelative
    rcases isRelative with isFirst | isFirst <;> cases isFirst
  rw [Tag.nonemptyValue?, refers.isPath, Option.filter_some, notEmpty]
  rfl

/-- The path is collected whatever else the tag says, unless there is a body with property types. -/
theorem ofElement (refers : tag.RefersTo path) (body : Option RawBody) :
    Destination.ofElement tag body =
      if tag.givesTypes body then .propTypes (RawBody.trimmedText body)
      else .script (bucketName tag) (tag.scriptAt path) := by
  have isForeign : TagName.hasForeignBody tag.name = true := by
    rw [refers.isScript]
    rfl
  have isHere : (some path).any (!Destination.isRelativePath ·) = false := by
    rw [Option.any_some, refers.isRelativePath]
    rfl
  rw [Destination.ofElement, isForeign, refers.notRaw, refers.isScript, if_neg (by decide),
    if_neg (by decide), if_pos (by decide)]
  unfold ofScript
  rw [refers.nonemptyValue?]
  dsimp only
  rw [isHere, refers.notRendered, Bool.false_and, if_neg Bool.false_ne_true,
    if_neg Bool.false_ne_true]
  rfl

/-- No element that stays in a tree has such a tag. -/
theorem not_remainsWith (refers : tag.RefersTo path) (children : List NodeHead) :
    ¬ tag.RemainsWith children := by
  intro remains
  rcases remains.script refers.isScript with isRaw | isForeign | ⟨isRendered, -⟩
  · cases refers.notRaw.symm.trans isRaw
  · rw [refers.nonemptyValue?, Option.any_some, refers.isRelativePath] at isForeign
    cases isForeign
  · cases refers.notRendered.symm.trans isRendered

end Tag.RefersTo

namespace Turn

/-- The scripts that some turns put into the bucket of a name. -/
def scriptsIn (name : String) (turns : List Turn) : List Script :=
  (assetsOf name (turns.filterMap collected?)).filterMap Asset.script?

theorem scriptsIn_append (name : String) (first second : List Turn) :
    scriptsIn name (first ++ second) = scriptsIn name first ++ scriptsIn name second := by
  simp only [scriptsIn, assetsOf, List.filterMap_append, List.filter_append, List.map_append]

theorem scriptsIn_cons {turn : Turn} {name : String} {script : Script}
    (collects : turn.collected? = some (name, .script script)) (later : List Turn) :
    scriptsIn name (turn :: later) = script :: scriptsIn name later := by
  simp [scriptsIn, assetsOf, collects, Asset.script?]

/-- No two turns cover the same position. -/
theorem eq_of_covers {turn first second : Turn} (isFirst : first ∈ turn.onwards)
    (isSecond : second ∈ turn.onwards) {position : Position} (covers : first.Covers position)
    (covers' : second.Covers position) : first = second := by
  have apart : turn.onwards.Pairwise fun earlier later =>
      earlier.Covers position → later.Covers position → earlier = later := by
    refine turn.pairwise_covers.imp fun ordered isEarlier isLater => ?_
    exact absurd (ordered _ _ isEarlier isLater) (lt_irrefl _)
  have symmetric : Std.Symm fun earlier later : Turn =>
      earlier.Covers position → later.Covers position → earlier = later :=
    ⟨fun _ _ same isEarlier isLater => (same isLater isEarlier).symm⟩
  exact apart.forall_of_forall (fun _ _ _ _ => rfl) isFirst isSecond covers covers'

variable {turn : Turn} {opening : OpeningTag} {body : Option RawBody} {path : String}

/-- The turn of such a tag collects the path, unless there is a body with property types. -/
theorem collected?_of_refersTo (isTag : turn.opening? = some (opening, body))
    (refers : opening.tag.RefersTo path) : turn.collected? =
      if opening.tag.givesTypes body then none
      else some (bucketName opening.tag, .script (opening.tag.scriptAt path)) := by
  rw [collected?, destination?, isTag, Option.map_some, Option.bind_some, refers.ofElement]
  split <;> rfl

theorem propTypes?_of_refersTo (isTag : turn.opening? = some (opening, body))
    (refers : opening.tag.RefersTo path) (gives : opening.tag.givesTypes body = true) :
    turn.propTypes? turn.assembly.currentName = some (RawBody.trimmedText body) := by
  rw [propTypes?, if_pos rfl, destination?, isTag, Option.map_some, Option.bind_some,
    refers.ofElement, if_pos gives]
  rfl

end Turn

namespace Template

variable {source : String} {start : Position} {sourcePath : Option String} {template : Template}

/-- A bucket has the scripts that the turns of the source have put into it. -/
theorem exists_bucket_of_collected (isParsed : parse source start sourcePath = .ok template)
    {turn : Turn} (isTurn : turn ∈ turns source start) {name : String} {asset : Asset}
    (collects : turn.collected? = some (name, asset)) :
    ∃ bucket, template.bucket? name = some bucket ∧
      bucket.scripts = Turn.scriptsIn name (turns source start) := by
  refine ⟨.ofAssets (assetsOf name ((turns source start).filterMap Turn.collected?)), ?_, rfl⟩
  rw [bucket?, NameMap.find?_eq_some_iff, entries_buckets isParsed, stableGrouping]
  refine List.mem_map.mpr ⟨name, List.mem_eraseDups.mpr ?_, rfl⟩
  exact List.mem_map.mpr ⟨(name, asset), List.mem_filterMap.mpr ⟨turn, isTurn, collects⟩, rfl⟩

theorem exists_collected_of_mem_scripts (isParsed : parse source start sourcePath = .ok template)
    {name : String} {bucket : Bucket} (isBucket : template.bucket? name = some bucket)
    {script : Script} (member : script ∈ bucket.scripts) :
    ∃ turn ∈ turns source start, turn.collected? = some (name, .script script) := by
  rw [bucket?, NameMap.find?_eq_some_iff, entries_buckets isParsed] at isBucket
  exact List.mem_filterMap.mp ((mem_of_mem_stableGrouping isBucket).1 script member)

theorem nodup_scripts (isParsed : parse source start sourcePath = .ok template) {name : String}
    {bucket : Bucket} (isBucket : template.bucket? name = some bucket) : bucket.scripts.Nodup := by
  have isValue : bucket ∈ template.buckets.values :=
    List.mem_map_of_mem (NameMap.find?_eq_some_iff.mp isBucket)
  refine List.Nodup.of_map (·.position) ?_
  exact (isInOrder_of_mem_buckets isParsed bucket isValue).scripts.imp ne_of_lt

/-- What becomes of the scripts that are at paths of the project. -/
structure KeepsScriptPaths (source : String) (start : Position) (template : Template) : Prop where
  /-- The path is in its bucket once, between the scripts of earlier tags and those of later ones. -/
  collected : ∀ before turn after opening body path, turns source start = before ++ turn :: after →
    turn.opening? = some (opening, body) → opening.tag.RefersTo path →
    opening.tag.givesTypes body = false →
    ∃ bucket, template.bucket? (bucketName opening.tag) = some bucket ∧
      bucket.scripts = Turn.scriptsIn (bucketName opening.tag) before ++
        opening.tag.scriptAt path :: Turn.scriptsIn (bucketName opening.tag) after ∧
      bucket.scripts.count (opening.tag.scriptAt path) = 1
  /-- The body with property types goes to the component it stands in. -/
  types : ∀ turn ∈ turns source start, ∀ opening body path,
    turn.opening? = some (opening, body) → opening.tag.RefersTo path →
    opening.tag.givesTypes body = true →
    turn.propTypes? turn.assembly.currentName = some (RawBody.trimmedText body)
  /-- No bucket has another script of this tag, and none has any if there are property types. -/
  only : ∀ turn ∈ turns source start, ∀ opening body path,
    turn.opening? = some (opening, body) → opening.tag.RefersTo path →
    ∀ name bucket, template.bucket? name = some bucket → ∀ script ∈ bucket.scripts,
      script.position = opening.tag.position → opening.tag.givesTypes body = false ∧
        name = bucketName opening.tag ∧ script = opening.tag.scriptAt path
  /-- No element of any tree has such a tag. -/
  outside : ∀ family ∈ template.families, ∀ tag ∈ family.lineage.head?, ∀ path,
    ¬ tag.RefersTo path

theorem not_refersTo_of_mem_families (isParsed : parse source start sourcePath = .ok template) :
    ∀ family ∈ template.families, ∀ tag ∈ family.lineage.head?, ∀ path, ¬ tag.RefersTo path := by
  refine of_mem_families isParsed ?_ (fun turn _ family isBegun => ?_) fun _ _ holds => holds
  · rintro tag ⟨⟩ path refers
    exact absurd refers.isScript (by simp [Tag.bare])
  · obtain ⟨opening, body, -, ⟨stays, rfl⟩ | ⟨declares, rfl⟩⟩ := Turn.mem_begun isBegun
    · rintro tag ⟨⟩ path refers
      exact refers.not_remainsWith _ ((opening.staysInTree_iff body).mp stays)
    · rintro tag ⟨⟩ path refers
      obtain ⟨name, declares⟩ := Option.isSome_iff_exists.mp declares
      have isTemplate := FlatAssembly.name_of_componentName?_eq_some declares
      exact absurd (refers.isScript.symm.trans isTemplate) (by decide)

/-- Every path of a script in the project is collected, except where there are property types. -/
theorem keepsScriptPaths_of_parse (isParsed : parse source start sourcePath = .ok template) :
    template.KeepsScriptPaths source start where
  collected before turn after opening body path split isTag refers noTypes := by
    have collects := Turn.collected?_of_refersTo isTag refers
    rw [noTypes, if_neg Bool.false_ne_true] at collects
    have isTurn : turn ∈ turns source start := split ▸ List.mem_append_cons_self
    obtain ⟨bucket, isBucket, scripts⟩ := exists_bucket_of_collected isParsed isTurn collects
    have scripts : bucket.scripts = Turn.scriptsIn (bucketName opening.tag) before ++
        opening.tag.scriptAt path :: Turn.scriptsIn (bucketName opening.tag) after := by
      rw [scripts, split, Turn.scriptsIn_append, Turn.scriptsIn_cons collects]
    have member : opening.tag.scriptAt path ∈ bucket.scripts :=
      scripts ▸ List.mem_append_cons_self
    exact ⟨bucket, isBucket, scripts,
      List.count_eq_one_of_mem (nodup_scripts isParsed isBucket) member⟩
  types _ _ _ _ _ isTag refers gives := Turn.propTypes?_of_refersTo isTag refers gives
  only turn isTurn opening body path isTag refers name bucket isBucket script member same := by
    obtain ⟨other, isOther, collects⟩ := exists_collected_of_mem_scripts isParsed isBucket member
    have covers : other.Covers opening.tag.position := same ▸ Turn.covers_of_collected? collects
    cases Turn.eq_of_covers isOther isTurn covers (Turn.covers_tag isTag)
    rw [Turn.collected?_of_refersTo isTag refers] at collects
    split at collects
    · cases collects
    · next noTypes =>
        cases collects
        exact ⟨Bool.eq_false_iff.mpr noTypes, rfl, rfl⟩
  outside := not_refersTo_of_mem_families isParsed

/-- Scripts at paths of the project, with a body, in a bucket, and with property types. -/
def scriptsSource : String :=
  "<script src=\"./a.js\" src=\"b.js\" #scope:page>x</script><div><script src=/c.js #types #bucket:d />" ++
    "</div><script src=\".e\" #types>f</script>"

/-- The first two paths are collected, and the third one gives way to the property types. -/
theorem keepsScriptPaths_scripts : ∃ template, parse scriptsSource .start none = .ok template ∧
    (turns scriptsSource .start).filterMap (fun turn => turn.opening?.map (·.1.tag.name)) =
      ["script", "div", "script", "script"] ∧
    template.buckets.entries.map (fun entry => (entry.1, entry.2.scripts.map (·.source))) =
      [("default", [.path "./a.js"]), ("d", [.path "/c.js"])] ∧
    template.main.propTypes = some "f" ∧ template.KeepsScriptPaths scriptsSource .start := by
  have isParsed : (parse scriptsSource .start none).map (fun template =>
      (template.buckets.entries.map (fun entry => (entry.1, entry.2.scripts.map (·.source))),
        template.main.propTypes)) =
      .ok ([("default", [.path "./a.js"]), ("d", [.path "/c.js"])], some "f") := by decide +kernel
  obtain ⟨template, isTemplate, summary⟩ := exists_ok_of_map isParsed
  obtain ⟨buckets, types⟩ := Prod.mk.inj summary
  exact ⟨template, isTemplate, by decide +kernel, buckets, types, keepsScriptPaths_of_parse isTemplate⟩

/-- A path in the project is lost if its tag has a body with property types. -/
theorem exists_lost_path : ∃ template,
    parse "<script src=\"./a.js\" #types>b</script>" .start none = .ok template ∧
    (∃ turn ∈ turns "<script src=\"./a.js\" #types>b</script>" .start, ∃ opening body,
      turn.opening? = some (opening, body) ∧ opening.tag.RefersTo "./a.js") ∧
    template.buckets.entries = [] ∧ template.imports = [] ∧
    template.main.root.children.map Node.head = [] ∧ template.main.propTypes = some "b" := by
  have isParsed : (parse "<script src=\"./a.js\" #types>b</script>" .start none).map (fun template =>
      (template.buckets.entries, template.imports, template.main.root.children.map Node.head,
        template.main.propTypes)) = .ok ([], [], [], some "b") := by decide +kernel
  obtain ⟨template, isTemplate, summary⟩ := exists_ok_of_map isParsed
  obtain ⟨buckets, imports, nodes, types⟩ : _ ∧ _ ∧ _ ∧ _ := by
    simpa only [Prod.mk.injEq] using summary
  have isThere : ∃ turn ∈ turns "<script src=\"./a.js\" #types>b</script>" .start,
      turn.opening?.any (fun start => decide (start.1.tag.RefersTo "./a.js")) = true := by
    decide +kernel
  obtain ⟨turn, isTurn, refers⟩ := isThere
  obtain ⟨⟨opening, body⟩, isTag, refers⟩ := (Option.any_eq_true _ _).mp refers
  exact ⟨template, isTemplate, ⟨turn, isTurn, opening, body, isTag, of_decide_eq_true refers⟩,
    buckets, imports, nodes, types⟩

end Template

end TemplateMarkup
