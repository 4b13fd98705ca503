import TemplateMarkup.Proofs.Assembly.Faults
import TemplateMarkup.Proofs.Assembly.Recording
import TemplateMarkup.Proofs.Document.KeptText
import TemplateMarkup.Proofs.Markup.WrittenTags

/-!
# Where everything stands

The position of everything that a template holds is that of a place of its source, and what is written
there can be told from the template.  A tag and each of its attributes start with their names.  What is
collected by its path is at the tag that gives the path, and a raw body is what comes next after some
white space.  All other texts start at the start of the source or directly after a tag.
-/

namespace TemplateMarkup

open CharacterClass

theorem source_eq_of_splitAtByte? {bytes : Nat} {text before after : List Char}
    (split : splitAtByte? bytes text = some (before, after)) : text = before ++ after := by
  fun_induction splitAtByte? bytes text generalizing before with
  | case1 text =>
      cases split
      rfl
  | case2 => cases split
  | case3 bytes character text fits ih =>
      obtain ⟨⟨first, rest⟩, later, same⟩ := Option.map_eq_some_iff.mp split
      cases same
      rw [ih later, List.cons_append]
  | case4 => cases split

/-- The position is that of some byte offset of the source, and something holds of the text before the
offset and of the text after it. -/
def StandsAt (source : String) (start position : Position) (isThere : List Char → List Char → Prop) :
    Prop :=
  ∃ offset before after, splitAtByte? offset source.toList = some (before, after) ∧
    position = start.past after.head? before ∧ isThere before after

/-- The text starts with the content, after white space that does not belong to it. -/
def StartsWithTrimmed (content text : List Char) : Prop :=
  ∃ space rest, text = space ++ (content ++ rest) ∧ ∀ character ∈ space, isWhitespace character

/-- The text of a run starts here: at the start of the source or directly after a tag. -/
def StartsRun (before : List Char) : Prop :=
  before = [] ∨ before.getLast? = some '>'

section

variable {source : String} {start : Position} {place : Cursor}

theorem standsAt_of_leadsTo {isThere : List Char → List Char → Prop}
    (reached : Cursor.LeadsTo (.atStart source start) place)
    (holds : isThere place.behind.reverse place.ahead) :
    StandsAt source start place.position isThere := by
  have within := (Cursor.isWithin_atStart source start).of_leadsTo reached
  obtain ⟨read, passes⟩ := reached
  have behind : place.behind.reverse = read := by
    rw [passes.behind_eq, List.reverse_append, List.reverse_reverse]
    rfl
  refine ⟨place.offset, _, _, within.splitAtByte?_eq, ?_, holds⟩
  rw [behind]
  exact passes.position_eq

end

/-- Trimming leaves out white space at both ends. -/
theorem startsWithTrimmed_trimEnds (text rest : List Char) :
    StartsWithTrimmed (trimEnds isWhitespace text) (text ++ rest) := by
  obtain ⟨before, after, whole, allBefore, -⟩ := exists_eq_append_trimEnds isWhitespace text
  refine ⟨before, after ++ rest, ?_, allBefore⟩
  conv_lhs => rw [whole]
  rw [List.append_assoc, List.append_assoc]

namespace Tag

/-- The tag stands at its position, and so does each of its attributes. -/
structure IsTraceable (source : String) (start : Position) (tag : Tag) : Prop where
  name : StandsAt source start tag.position fun _ after =>
    StartsWithName ('<' :: tag.name.toList) after
  attributes : ∀ written ∈ tag.attributes, StandsAt source start written.position fun _ after =>
    StartsWithName written.name.toList after
  directives : ∀ directive ∈ tag.directives, StandsAt source start directive.position fun _ after =>
    ∃ written, directive.IsWrittenAs written ∧ StartsWithName written after

end Tag

/-- A script or a style sheet is at the tag that gives its path, or it is the raw body there. -/
def AssetSource.IsTraceable (source : String) (start position : Position) : AssetSource → Prop
  | .path _ => StandsAt source start position fun _ after =>
      StartsWithName "<script".toList after ∨ StartsWithName "<link".toList after
  | .content text => StandsAt source start position fun _ after =>
      StartsWithTrimmed text.toList after

/-- Whatever is in an element stands where it has been read. -/
structure Family.IsTraceable (source : String) (start : Position) (family : Family) : Prop where
  elements : ∀ tag, .element tag ∈ family.children → tag.IsTraceable source start
  bodies : family.hasRawBody → ∀ content position, .text content position ∈ family.children →
    StandsAt source start position fun _ after => StartsWithTrimmed content.toList after
  runs : family.hasRawBody = false → ∀ content position,
    .text content position ∈ family.children →
      StandsAt source start position fun before _ => StartsRun before

theorem RawBody.not_mem_children {body : Option RawBody} {tag : Tag} :
    .element tag ∉ (children body).map Node.head := by
  unfold children
  split
  · exact List.not_mem_nil
  · split <;> simp [Node.head]

namespace Destination

/-- What is collected comes from a tag or from its body. -/
inductive IsTakenFrom (tag : Tag) (body : Option RawBody) : AssetSource → Position → Prop where
  | tag {path : String} (isNamed : tag.name = "script" ∨ tag.name = "link") :
      IsTakenFrom tag body (.path path) tag.position
  | body {read : RawBody} (isBody : body = some read) :
      IsTakenFrom tag body (.content read.trimmed) read.position

/-- What goes to a destination comes from a tag or from its body. -/
inductive IsSupplied (tag : Tag) (body : Option RawBody) : Destination → Prop where
  | script {bucket : String} {script : Script}
      (isTaken : IsTakenFrom tag body script.source script.position) :
      IsSupplied tag body (.script bucket script)
  | style {bucket : String} {style : Style}
      (isTaken : IsTakenFrom tag body style.source style.position) :
      IsSupplied tag body (.style bucket style)
  | imports {imported : ComponentImport} (isLink : tag.name = "link")
      (position : imported.position = tag.position) : IsSupplied tag body (.imports imported)
  | tree : IsSupplied tag body .tree
  | propTypes {text : String} : IsSupplied tag body (.propTypes text)
  | nowhere : IsSupplied tag body .nowhere

variable {tag : Tag} {body : Option RawBody}

theorem isSupplied_ofLink (isLink : tag.name = "link") : IsSupplied tag body (ofLink tag) := by
  unfold ofLink
  split
  · exact .tree
  · split
    · exact .imports isLink rfl
    · split
      · exact .style (.tag (.inr isLink))
      · exact .tree

theorem isSupplied_ofScript (isScript : tag.name = "script") :
    IsSupplied tag body (ofScript tag body) := by
  unfold ofScript
  dsimp only
  split
  · exact .tree
  · split
    · exact .tree
    · split
      · exact .propTypes
      · split
        · exact .script (.tag (.inl isScript))
        · split
          · exact .nowhere
          · exact .script (.body rfl)
        · exact .nowhere

theorem isSupplied_ofStyle : IsSupplied tag body (ofStyle tag body) := by
  unfold ofStyle
  split
  · exact .nowhere
  · split
    · exact .nowhere
    · exact .style (.body rfl)

theorem isSupplied_ofElement (tag : Tag) (body : Option RawBody) :
    IsSupplied tag body (ofElement tag body) := by
  unfold ofElement
  split
  · next isLink => exact isSupplied_ofLink (beq_iff_eq.mp isLink)
  · split
    · exact .tree
    · split
      · next isScript => exact isSupplied_ofScript (beq_iff_eq.mp isScript)
      · split
        · exact isSupplied_ofStyle
        · exact .tree

end Destination

namespace Turn

variable {source : String} {start : Position} {turn : Turn} {opening : OpeningTag}

theorem readOpeningTag_of_opening? {body : Option RawBody}
    (isTag : turn.opening? = some (opening, body)) :
    turn.tagPlace.isOpeningTagAhead ∧ opening = turn.tagPlace.readOpeningTag.1 := by
  unfold opening? at isTag
  split at isTag
  · next isAhead =>
      rw [Cursor.fst_readElementStart] at isTag
      cases isTag
      exact ⟨isAhead, rfl⟩
  · cases isTag

/-- A tag stands where it is read. -/
theorem isTraceable_tag {body : Option RawBody} (isTurn : turn ∈ Template.turns source start)
    (isTag : turn.opening? = some (opening, body)) : opening.tag.IsTraceable source start := by
  obtain ⟨isAhead, rfl⟩ := readOpeningTag_of_opening? isTag
  have reached := Template.leadsTo_tagPlace isTurn
  have toAttributes := reached.trans
    ((Cursor.leadsTo_skip turn.tagPlace ['<']).trans (Cursor.leadsTo_readName _))
  refine ⟨standsAt_of_leadsTo reached (Cursor.startsWithName_of_openingTag isAhead),
    fun written member => ?_, fun directive member => ?_⟩
  · obtain ⟨_ | _, isRead, same⟩ := List.mem_filterMap.mp member <;> cases same
    obtain ⟨place, leads, position, name, isName, starts⟩ :=
      Cursor.exists_place_of_attribute _ _ isRead
    have position : written.position = place.position := position
    have isName : name = written.name.toList := isName
    rw [position]
    exact standsAt_of_leadsTo (toAttributes.trans leads) (isName ▸ starts)
  · obtain ⟨_ | _, isRead, same⟩ := List.mem_filterMap.mp member <;> cases same
    obtain ⟨place, leads, position, isWritten⟩ := Cursor.exists_place_of_attribute _ _ isRead
    have position : directive.position = place.position := position
    rw [position]
    exact standsAt_of_leadsTo (toAttributes.trans leads) isWritten

/-- A raw body stands after its tag. -/
theorem standsAt_body {body : RawBody} (isTurn : turn ∈ Template.turns source start)
    (isTag : turn.opening? = some (opening, some body)) :
    StandsAt source start body.position fun _ after =>
      StartsWithTrimmed body.trimmed.toList after := by
  obtain ⟨closing, passes, position, -⟩ := exists_passes_body isTag
  rw [position]
  refine standsAt_of_leadsTo ((Template.leadsTo_tagPlace isTurn).trans (Cursor.leadsTo_readOpeningTag _)) ?_
  rw [RawBody.trimmed, WhitespacePolicy.apply_rawBody, String.toList_ofList, passes.ahead_eq]
  exact startsWithTrimmed_trimEnds _ _

/-- Whoever reads up to a `>` has just read one. -/
theorem startsRun_of_angle {cursor place : Cursor} (leads : Cursor.LeadsTo cursor place)
    (toAngle : ∃ read, cursor.ahead = read ++ '>' :: place.ahead) : StartsRun place.behind.reverse := by
  obtain ⟨text, passes⟩ := leads
  obtain ⟨read, ahead⟩ := toAngle
  right
  rw [passes.behind_eq, passes.eq_concat ahead]
  simp

/-- A run that is not empty starts at the start of the source or after a whole tag. -/
theorem startsRun_of_ahead : ∀ turn ∈ Template.turns source start, turn.place.ahead ≠ [] →
    StartsRun turn.place.behind.reverse := by
  refine of_mem_onwards (fun _ => .inl rfl) fun earlier _ later _ follows more => ?_
  rcases next?_cases follows with ⟨_, _, -, -, -, place⟩ | ⟨_, -, -, -, place⟩
  · rw [place] at more ⊢
    exact startsRun_of_angle (Cursor.leadsTo_readElementStart _)
      (Cursor.exists_angle_of_elementStart (Cursor.elementStartIsWhole_of_ahead more))
  · rw [place] at more ⊢
    exact startsRun_of_angle (Cursor.leadsTo_readClosingTag _)
      (Cursor.exists_angle_of_closingTag (Cursor.closingTagIsWhole_of_ahead more))

/-- Nothing is added of an empty run. -/
theorem ahead_ne_nil_of_mem_added {content : String} {position : Position}
    (member : NodeHead.text content position ∈ turn.added) : turn.place.ahead ≠ [] := by
  intro atEnd
  obtain ⟨written, passes⟩ := Cursor.leadsTo_readText turn.place
  have nothing : written = [] := (List.append_eq_nil_iff.mp (passes.ahead_eq.symm.trans atEnd)).1
  have nothingKept := isEmpty_keptText (nothing ▸ passes)
  have isText := mem_text_of_mem_added member
  rw [text, if_pos nothingKept] at isText
  cases isText

theorem standsAt_run {content : String} {position : Position}
    (isTurn : turn ∈ Template.turns source start)
    (member : NodeHead.text content position ∈ turn.added) :
    StandsAt source start position fun before _ => StartsRun before := by
  obtain ⟨-, rfl⟩ := eq_of_mem_added member
  exact standsAt_of_leadsTo (leadsTo_of_mem_onwards turn isTurn)
    (startsRun_of_ahead turn isTurn (ahead_ne_nil_of_mem_added member))

/-- The elements that a turn adds stand where they are read. -/
theorem isTraceable_of_mem_added {tag : Tag} (isTurn : turn ∈ Template.turns source start)
    (member : NodeHead.element tag ∈ turn.added) : tag.IsTraceable source start := by
  obtain ⟨after, isAdded, cases⟩ := turn.added_cases
  rw [isAdded] at member
  rcases List.mem_append.mp member with isText | isAfter
  · unfold text at isText
    split at isText <;> simp at isText
  · rcases cases with ⟨-, rfl⟩ | ⟨opening, body, isTag, ⟨-, rfl⟩ | ⟨-, rfl⟩⟩
    · cases isAfter
    · cases List.mem_singleton.mp isAfter
      exact isTraceable_tag isTurn isTag
    · cases isAfter

theorem isTraceable_of_declared? {name : String} {tag : Tag}
    (isTurn : turn ∈ Template.turns source start) (declares : turn.declared? = some (name, tag)) :
    tag.IsTraceable source start := by
  obtain ⟨opening, body, isTag, -, rfl⟩ := exists_of_declared? declares
  exact isTraceable_tag isTurn isTag

/-- What a turn collects stands at its tag or after it. -/
theorem isTraceable_of_isTakenFrom {body : Option RawBody} {asset : AssetSource} {position : Position}
    (isTurn : turn ∈ Template.turns source start) (isTag : turn.opening? = some (opening, body))
    (isTaken : Destination.IsTakenFrom opening.tag body asset position) :
    asset.IsTraceable source start position := by
  cases isTaken with
  | tag isNamed =>
      obtain ⟨offset, before, after, split, position, starts⟩ := (isTraceable_tag isTurn isTag).name
      refine ⟨offset, before, after, split, position, ?_⟩
      rcases isNamed with isScript | isLink
      · rw [isScript] at starts
        exact .inl starts
      · rw [isLink] at starts
        exact .inr starts
  | body isBody =>
      cases isBody
      exact standsAt_body isTurn isTag

/-- What a turn gives to a destination comes from its tag. -/
theorem exists_isSupplied {destination : Destination} (isDestination : turn.destination? = some destination) :
    ∃ opening body, turn.opening? = some (opening, body) ∧
      destination.IsSupplied opening.tag body := by
  obtain ⟨⟨opening, body⟩, isTag, rfl⟩ := Option.map_eq_some_iff.mp isDestination
  exact ⟨opening, body, isTag, Destination.isSupplied_ofElement _ _⟩

theorem isTraceable_of_collected? {bucket : String} {asset : Asset}
    (isTurn : turn ∈ Template.turns source start) (collects : turn.collected? = some (bucket, asset)) :
    match asset with
    | .script script => script.source.IsTraceable source start script.position
    | .style style => style.source.IsTraceable source start style.position := by
  obtain ⟨destination, isDestination, collected⟩ := Option.bind_eq_some_iff.mp collects
  obtain ⟨opening, body, isTag, isSupplied⟩ := exists_isSupplied isDestination
  cases isSupplied with
  | script isTaken =>
      cases collected
      exact isTraceable_of_isTakenFrom isTurn isTag isTaken
  | style isTaken =>
      cases collected
      exact isTraceable_of_isTakenFrom isTurn isTag isTaken
  | _ => cases collected

theorem standsAt_of_imported? {imported : ComponentImport}
    (isTurn : turn ∈ Template.turns source start) (imports : turn.imported? = some imported) :
    StandsAt source start imported.position fun _ after => StartsWithName "<link".toList after := by
  obtain ⟨destination, isDestination, isImport⟩ := Option.bind_eq_some_iff.mp imports
  obtain ⟨opening, body, isTag, isSupplied⟩ := exists_isSupplied isDestination
  cases isSupplied with
  | imports isLink position =>
      cases isImport
      have stands := (isTraceable_tag isTurn isTag).name
      rw [isLink] at stands
      rw [position]
      exact stands
  | _ => cases isImport

theorem isTraceable_begun (isTurn : turn ∈ Template.turns source start) :
    ∀ family ∈ turn.begun, family.IsTraceable source start := by
  intro family isBegun
  obtain ⟨opening, body, isTag, ⟨-, rfl⟩ | ⟨-, rfl⟩⟩ := mem_begun isBegun
  · refine ⟨fun _ member => absurd member RawBody.not_mem_children,
      fun _ content position member => ?_, fun notRaw content position member => ?_⟩
    · obtain ⟨read, rfl, rfl, rfl⟩ := RawBody.mem_children member
      exact standsAt_body isTurn isTag
    · obtain ⟨read, rfl, -, -⟩ := RawBody.mem_children member
      cases notRaw.symm.trans (hasRawBody_begun isTag)
  · exact ⟨nofun, fun _ => nofun, fun _ => nofun⟩

/-- An element that has got another child. -/
theorem isTraceable_grown (isTurn : turn ∈ Template.turns source start)
    (isTraceable : Family.IsTraceable source start ⟨turn.assembly.lineage, turn.assembly.siblings⟩) :
    Family.IsTraceable source start
      ⟨turn.assembly.lineage, turn.assembly.siblings ++ turn.added⟩ := by
  refine ⟨fun tag member => ?_, fun isRaw => ?_, fun notRaw content position member => ?_⟩
  · rcases List.mem_append.mp member with isOld | isNew
    · exact isTraceable.elements tag isOld
    · exact isTraceable_of_mem_added isTurn isNew
  · cases isRaw.symm.trans (hasRawBody_lineage isTurn _)
  · rcases List.mem_append.mp member with isOld | isNew
    · exact isTraceable.runs notRaw content position isOld
    · exact standsAt_run isTurn isNew

end Turn

namespace Template

variable {source : String} {start : Position} {sourcePath : Option String} {template : Template}

/-- Whatever has a position stands there.  Every element but the main root is the child of another one
or the root of an inline component. -/
structure IsTraceable (source : String) (start : Position) (template : Template) : Prop where
  families : ∀ family ∈ template.families, family.IsTraceable source start
  roots : ∀ component ∈ template.inlineComponents.values, component.root.tag.IsTraceable source start
  scripts : ∀ bucket ∈ template.buckets.values, ∀ script ∈ bucket.scripts,
    script.source.IsTraceable source start script.position
  styles : ∀ bucket ∈ template.buckets.values, ∀ style ∈ bucket.styles,
    style.source.IsTraceable source start style.position
  imports : ∀ imported ∈ template.imports, StandsAt source start imported.position fun _ after =>
    StartsWithName "<link".toList after

/-- Every position of a template can be traced to its source. -/
theorem isTraceable_of_parse (isParsed : parse source start sourcePath = .ok template) :
    template.IsTraceable source start := by
  have collected {bucket : Bucket} (isBucket : bucket ∈ template.buckets.values) : ∃ name,
      (name, bucket) ∈ stableGrouping ((turns source start).filterMap Turn.collected?) := by
    obtain ⟨⟨name, _⟩, isEntry, rfl⟩ := List.mem_map.mp isBucket
    exact ⟨name, entries_buckets isParsed ▸ isEntry⟩
  refine ⟨of_mem_families isParsed ?_ (fun _ => Turn.isTraceable_begun) fun _ => Turn.isTraceable_grown,
    fun component isComponent => ?_, fun bucket isBucket script isScript => ?_,
    fun bucket isBucket style isStyle => ?_, fun imported isImport => ?_⟩
  · exact ⟨nofun, fun _ => nofun, fun _ => nofun⟩
  · obtain ⟨⟨name, component⟩, isEntry, rfl⟩ := List.mem_map.mp isComponent
    have isRoot : (name, component.root.tag) ∈ (turns source start).filterMap Turn.declared? := by
      rw [← roots_inlineComponents isParsed]
      exact List.mem_map.mpr ⟨_, isEntry, rfl⟩
    obtain ⟨turn, isTurn, declares⟩ := List.mem_filterMap.mp isRoot
    exact Turn.isTraceable_of_declared? isTurn declares
  · obtain ⟨name, isGrouped⟩ := collected isBucket
    obtain ⟨turn, isTurn, collects⟩ :=
      List.mem_filterMap.mp ((mem_of_mem_stableGrouping isGrouped).1 script isScript)
    exact Turn.isTraceable_of_collected? isTurn collects
  · obtain ⟨name, isGrouped⟩ := collected isBucket
    obtain ⟨turn, isTurn, collects⟩ :=
      List.mem_filterMap.mp ((mem_of_mem_stableGrouping isGrouped).2 style isStyle)
    exact Turn.isTraceable_of_collected? isTurn collects
  · rw [imports_eq isParsed] at isImport
    obtain ⟨turn, isTurn, imports⟩ := List.mem_filterMap.mp isImport
    exact Turn.standsAt_of_imported? isTurn imports

/-- An import, a script from the project, attributes of every kind, and bodies of every kind. -/
def mixedSource : String :=
  "é\r\n<link rel=\"import\" href=\"a.html\"><script src=\"./a.js\"></script>" ++
    "<pre :a #b:c d=1> x <i #raw>\n<b></i></pre><template #component:a></template><style> s </style>"

theorem isTraceable_mixed : ∃ template, parse mixedSource ⟨2, 3⟩ none = .ok template ∧
    (template.families.flatMap (·.children)).filterMap NodeHead.text? =
      [("é ", ⟨2, 3⟩), (" x ", ⟨3, 81⟩), ("<b>", ⟨3, 92⟩)] ∧
    template.imports.map (·.position) = [⟨3, 1⟩] ∧
    template.buckets.entries = [("default", ⟨[⟨.path "./a.js", "global", ⟨3, 34⟩⟩],
      [⟨.content "s", ⟨4, 55⟩⟩]⟩)] ∧
    template.IsTraceable mixedSource ⟨2, 3⟩ := by
  have isParsed : (parse mixedSource ⟨2, 3⟩ none).map (fun template =>
      ((template.families.flatMap (·.children)).filterMap NodeHead.text?,
        template.imports.map (·.position), template.buckets.entries)) =
      .ok ([("é ", ⟨2, 3⟩), (" x ", ⟨3, 81⟩), ("<b>", ⟨3, 92⟩)], [⟨3, 1⟩],
        [("default", ⟨[⟨.path "./a.js", "global", ⟨3, 34⟩⟩], [⟨.content "s", ⟨4, 55⟩⟩]⟩)]) := by
    decide +kernel
  obtain ⟨template, isTemplate, parts⟩ := exists_ok_of_map isParsed
  obtain ⟨texts, imports, buckets⟩ : _ ∧ _ ∧ _ := by simpa only [Prod.mk.injEq] using parts
  exact ⟨template, isTemplate, texts, imports, buckets, isTraceable_of_parse isTemplate⟩

/-- The body of a root is read as markup, even if its tag asks for a raw one. -/
theorem not_standsAt_rawRoot :
    ¬ ∀ (source : String) (start : Position) (sourcePath : Option String) (template : Template),
      parse source start sourcePath = .ok template →
        ∀ family ∈ template.families, ∀ tag ∈ family.lineage.head?, tag.hasRawBody →
          ∀ content position, .text content position ∈ family.children →
            StandsAt source start position fun _ after =>
              StartsWithTrimmed content.toList after := by
  intro stands
  let tag : Tag := ⟨"template", [], [⟨"component", none, some "a", false, false, ⟨1, 11⟩⟩,
    ⟨"raw", none, none, false, false, ⟨1, 26⟩⟩], .start⟩
  have isParsed : (parse "<template #component=\"a\" #raw>x  y</template>" .start none).map families =
      .ok [⟨[.bare "" .start], []⟩, ⟨[tag], [.text "x y" ⟨1, 31⟩]⟩] := by decide +kernel
  obtain ⟨template, isTemplate, areFamilies⟩ := exists_ok_of_map isParsed
  have member : ⟨[tag], [.text "x y" ⟨1, 31⟩]⟩ ∈ template.families := by
    rw [areFamilies]
    exact .tail _ List.mem_cons_self
  obtain ⟨offset, before, after, split, -, space, rest, isThere, -⟩ :=
    stands _ _ _ template isTemplate _ member tag rfl (by decide) "x y" ⟨1, 31⟩ List.mem_cons_self
  have written : "x y".toList <:+: "<template #component=\"a\" #raw>x  y</template>".toList := by
    refine ⟨before ++ space, rest, ?_⟩
    rw [source_eq_of_splitAtByte? split, isThere, List.append_assoc, List.append_assoc]
  exact absurd written (by decide +kernel)

end Template

end TemplateMarkup
