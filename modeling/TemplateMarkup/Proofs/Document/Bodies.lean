import TemplateMarkup.Proofs.Assembly.Collection
import TemplateMarkup.Proofs.Document.Remaining

/-!
# Bodies of scripts and style sheets

A script or a style sheet that is written in place goes to one of three kinds of places: it remains in
its tree, it is put into a bucket, or its body becomes the property types of a component.  What is in a
tree or in a bucket stays there.  A component has one place for property types only, so of several such
bodies in one component only the last remains.
-/

namespace TemplateMarkup

open Destination

/-- It is a script or a style sheet that is not taken from elsewhere. -/
def Tag.isInPlace (tag : Tag) : Bool :=
  TagName.hasForeignBody tag.name && (tag.nonemptyValue? "src").isNone

/-- The body of a script or a style sheet that is written in place and remains in its tree. -/
def Family.body? (family : Family) : Option (String × Position) :=
  match family.lineage, family.children with
  | tag :: _ :: _, [.text content position] => if tag.isInPlace then some (content, position) else none
  | _, _ => none

theorem Family.body?_eq_none {family : Family} (notRaw : family.hasRawBody = false) :
    family.body? = none := by
  unfold body?
  split
  · next tag parent above content position lineage _ =>
      rw [hasRawBody, lineage] at notRaw
      have notForeign : TagName.hasForeignBody tag.name = false := (Bool.or_eq_false_iff.mp notRaw).1
      rw [Tag.isInPlace, notForeign, Bool.false_and]
      rfl
  · rfl

/-- The body in the tree of an element with a raw body is the trimmed one. -/
theorem Family.body?_children (tag parent : Tag) (above : List Tag) (body : Option RawBody) :
    body? ⟨tag :: parent :: above, (RawBody.children body).map Node.head⟩ =
      (body.filter fun read => tag.isInPlace && !read.trimmed.isEmpty).map
        fun read => (read.trimmed, read.position) := by
  cases body with
  | none => rfl
  | some read =>
      rw [Option.filter_some, RawBody.children]
      cases read.trimmed.isEmpty with
      | true =>
          rw [if_pos rfl, Bool.not_true, Bool.and_false]
          rfl
      | false =>
          rw [if_neg Bool.false_ne_true, Bool.not_false, Bool.and_true]
          cases isInPlace : tag.isInPlace <;> simp [body?, isInPlace, Node.head]

theorem OpeningTag.ofElement_of_staysInTree (opening : OpeningTag) {body : Option RawBody}
    (stays : opening.staysInTree body) : ofElement opening.tag body = .tree := by
  unfold staysInTree at stays
  split at stays
  · exact beq_iff_eq.mp stays
  · next notPlaced => exact ofElement_of_not_placed body (by simpa using notPlaced)

theorem OpeningTag.staysInTree_of_isInPlace (opening : OpeningTag) {body : Option RawBody}
    (isInPlace : opening.tag.isInPlace) :
    opening.staysInTree body = (ofElement opening.tag body == .tree) := by
  have isForeign : TagName.hasForeignBody opening.tag.name := ((Bool.and_eq_true _ _).mp isInPlace).1
  exact if_pos (by rw [isForeign, Bool.or_true])

/-- A body that is not empty goes to one of three kinds of places. -/
theorem Destination.ofElement_of_isInPlace {tag : Tag} {body : RawBody} (isInPlace : tag.isInPlace)
    (notEmpty : body.trimmed.isEmpty = false) :
    ofElement tag (some body) = .tree ∨ ofElement tag (some body) = .propTypes body.trimmed ∨
      (∃ bucket scope, ofElement tag (some body) =
        .script bucket ⟨.content body.trimmed, scope, body.position⟩) ∨
      ∃ bucket, ofElement tag (some body) =
        .style bucket ⟨.content body.trimmed, body.position⟩ := by
  obtain ⟨isForeign, noPath⟩ := (Bool.and_eq_true _ _).mp isInPlace
  have noPath : tag.nonemptyValue? "src" = none := by simpa using noPath
  have ofScript_eq : ofScript tag (some body) =
      if tag.hasDirective "render" then .tree
      else if tag.hasDirective "types" then .propTypes body.trimmed
      else .script (bucketName tag) ⟨.content body.trimmed, scriptScope tag, body.position⟩ := by
    unfold ofScript
    rw [noPath]
    dsimp only [Option.any_none, Option.isSome_none, Option.map_some, Option.getD_some]
    rw [notEmpty, if_neg Bool.false_ne_true]
    simp only [Bool.not_false, Bool.or_true, Bool.and_true, Bool.false_eq_true, if_false]
  have ofStyle_eq : ofStyle tag (some body) =
      .style (bucketName tag) ⟨.content body.trimmed, body.position⟩ := by
    simp [ofStyle, notEmpty]
  have notLink : tag.name ≠ "link" := by
    intro isLink
    rw [isLink] at isForeign
    cases isForeign
  unfold ofElement
  rw [if_neg (by simpa using notLink), ofScript_eq, ofStyle_eq]
  split
  · exact .inl rfl
  · split
    · split
      · exact .inl rfl
      · split
        · exact .inr (.inl rfl)
        · exact .inr (.inr (.inl ⟨_, _, rfl⟩))
    · split
      · exact .inr (.inr (.inr ⟨_, rfl⟩))
      · exact .inl rfl

namespace Turn

/-- The body of a script or a style sheet that is written in place, if anything remains of it. -/
def body? (turn : Turn) : Option RawBody :=
  turn.opening?.bind fun start =>
    start.2.filter fun body => start.1.tag.isInPlace && !body.trimmed.isEmpty

/-- Such a body, if its element stays in the tree. -/
def treeBody? (turn : Turn) : Option (String × Position) :=
  if turn.destination? = some .tree then turn.body?.map fun body => (body.trimmed, body.position)
  else none

theorem filterMap_begun_body? (turn : Turn) :
    turn.begun.filterMap Family.body? = turn.treeBody?.toList := by
  unfold begun treeBody? destination? body?
  cases turn.opening? with
  | none => rfl
  | some start =>
      obtain ⟨opening, body⟩ := start
      obtain ⟨parent, above, lineage⟩ := turn.assembly.exists_lineage_eq
      simp only [Option.map_some, Option.getD_some, Option.bind_some, OpeningTag.begun, lineage,
        Option.some.injEq]
      by_cases stays : opening.staysInTree body
      · rw [if_pos stays, if_pos (opening.ofElement_of_staysInTree stays),
          List.filterMap_eq_flatMap_toList, List.flatMap_singleton, Family.body?_children]
      · -- Only the root of a component is not in a tree around it though nothing collects it.
        have nothing : (if ofElement opening.tag body = .tree then
            (body.filter fun read => opening.tag.isInPlace && !read.trimmed.isEmpty).map
              fun read => (read.trimmed, read.position)
            else none) = none := by
          split
          · next isTree =>
              have elsewhere : opening.tag.isInPlace = false := by
                refine Bool.eq_false_iff.mpr fun isInPlace => stays ?_
                rw [opening.staysInTree_of_isInPlace isInPlace, isTree]
                rfl
              rw [elsewhere]
              cases body <;> rfl
          · rfl
        rw [nothing, if_neg stays]
        split <;> rfl

end Turn

namespace Template

variable {source : String} {start : Position} {sourcePath : Option String} {template : Template}

/-- The property types of the component of a name, or of the file's own markup. -/
def propTypes? (template : Template) : Option String → Option String
  | none => template.main.propTypes
  | some name => (template.inlineComponent? name).bind (·.propTypes)

/-- Where the bodies of scripts and style sheets are. -/
structure KeepsBodies (source : String) (start : Position) (template : Template) : Prop where
  /-- Each body goes somewhere as it is. -/
  places : ∀ turn ∈ turns source start, ∀ body, turn.body? = some body →
    turn.destination? = some .tree ∨ turn.destination? = some (.propTypes body.trimmed) ∨
      (∃ bucket scope, turn.destination? =
        some (.script bucket ⟨.content body.trimmed, scope, body.position⟩)) ∨
      ∃ bucket, turn.destination? = some (.style bucket ⟨.content body.trimmed, body.position⟩)
  /-- What goes to a tree is there at last, each body once. -/
  trees : (template.families.filterMap Family.body?).Perm
    ((turns source start).filterMap Turn.treeBody?)
  /-- So is what goes into a bucket. -/
  assets : template.buckets.assets.Perm ((turns source start).filterMap Turn.asset?)
  /-- Of the property types that go to one component the last ones are there. -/
  propTypes : ∀ name, template.propTypes? name =
    ((turns source start).filterMap (·.propTypes? name)).getLast?

theorem propTypes?_of_parse (isParsed : parse source start sourcePath = .ok template)
    (name : Option String) : template.propTypes? name =
      ((turns source start).filterMap (·.propTypes? name)).getLast? := by
  obtain ⟨final, run, rfl⟩ := exists_run isParsed
  obtain ⟨arena, represents⟩ : ∃ arena : Arena, arena.Represents start final := by
    obtain ⟨last, isLast, -, rfl⟩ := Turn.exists_last run
    obtain ⟨arena, represents⟩ := exists_represents_turn isLast
    exact ⟨_, Turn.represents_withText represents⟩
  have has := Turn.hasPropTypes_foldlM (Arena.represents_initial start) (.initial start) run
  have has := has.closeScopes final.inline.length
  have records := represents.records.closeScopes final.inline.length
  obtain ⟨noneOpen, -⟩ := final.inline_closeScopes final.inline rfl
  simp only [Option.or_none] at has
  unfold Assembly.finish
  generalize Assembly.closeScopes final.inline.length final = closed at has records noneOpen
  cases name with
  | none => exact (closed.main.propTypes_closeMany _).trans has.main
  | some name =>
      show ((closed.components.filterMap id).find? name).bind _ = _
      rw [NameMap.find?_filterMap]
      rcases found : closed.components.find? name with _ | _ | component
      · exact (has.undeclared name (NameMap.find?_eq_none_iff.mp found)).symm
      · have isOpen := (records.isOpen name).mp (NameMap.find?_eq_some_iff.mp found)
        rw [noneOpen] at isOpen
        cases isOpen
      · exact has.closed (NameMap.find?_eq_some_iff.mp found)

/-- No body of a script or a style sheet is lost, except for property types that others follow in the
same component. -/
theorem keepsBodies_of_parse (isParsed : parse source start sourcePath = .ok template) :
    template.KeepsBodies source start where
  places turn isTurn body isBody := by
    obtain ⟨⟨opening, read⟩, isTag, isBody⟩ := Option.bind_eq_some_iff.mp isBody
    obtain ⟨rfl, kept⟩ := Option.filter_eq_some_iff.mp isBody
    obtain ⟨isInPlace, notEmpty⟩ := (Bool.and_eq_true _ _).mp kept
    have goes := ofElement_of_isInPlace isInPlace (by simpa using notEmpty)
    simpa only [Turn.destination?, isTag, Option.map_some, Option.some.injEq] using goes
  trees := by
    refine perm_filterMap_families isParsed rfl (fun turn isTurn => ?_) Turn.filterMap_begun_body?
    rw [Family.body?_eq_none (Turn.hasRawBody_lineage isTurn _),
      Family.body?_eq_none (Turn.hasRawBody_lineage isTurn _)]
  assets := by
    obtain ⟨final, run, rfl⟩ := exists_run isParsed
    have gathered := Turn.perm_assets run
    rw [List.filterMap_eq_flatMap_toList]
    show (Assembly.closeScopes final.inline.length final).buckets.assets.Perm _
    rw [Assembly.buckets_closeScopes]
    exact gathered
  propTypes := propTypes?_of_parse isParsed

/-- A script that is rendered, one that is collected, a style sheet, and property types. -/
def pageSource : String :=
  "<script #render>a</script><script>b</script><style>c</style><script #types>d</script>"

/-- All four bodies are kept. -/
theorem keepsBodies_page : ∃ template, parse pageSource .start none = .ok template ∧
    ((turns pageSource .start).filterMap fun turn => turn.body?.map (·.trimmed)) =
      ["a", "b", "c", "d"] ∧
    template.KeepsBodies pageSource .start := by
  have isParsed : (parse pageSource .start none).map (·.main.propTypes) = .ok (some "d") := by
    decide +kernel
  obtain ⟨template, isTemplate, -⟩ := exists_ok_of_map isParsed
  exact ⟨template, isTemplate, by decide +kernel, keepsBodies_of_parse isTemplate⟩

/-- Property types are lost if others follow in the same component. -/
theorem exists_lost_body : ∃ template,
    parse "<script #types>a</script><script #types>b</script>" .start none = .ok template ∧
    ((turns "<script #types>a</script><script #types>b</script>" .start).filterMap fun turn =>
      turn.body?.map (·.trimmed)) = ["a", "b"] ∧
    template.families.filterMap Family.body? = [] ∧ template.buckets.assets = [] ∧
    template.components.map (·.propTypes) = [some "b"] := by
  have isParsed : ((parse "<script #types>a</script><script #types>b</script>" .start none).map
      fun template => (template.families.filterMap Family.body?, template.buckets.assets,
        template.components.map (·.propTypes))) = .ok ([], [], [some "b"]) := by decide +kernel
  obtain ⟨template, isTemplate, kept⟩ := exists_ok_of_map isParsed
  obtain ⟨trees, assets, types⟩ : _ ∧ _ ∧ _ := by simpa only [Prod.mk.injEq] using kept
  exact ⟨template, isTemplate, by decide +kernel, trees, assets, types⟩

end Template

end TemplateMarkup
