import TemplateMarkup.Command.Run
import TemplateMarkup.Proofs.Document.SortedReading
import TemplateMarkup.Proofs.Files.Writing
import TemplateMarkup.Proofs.Json.Prepending

/-!
# The two forms of reported data

The data of a template is reported on a line of its own, with the members of all objects sorted, or as
a document on many lines, with the members in the order of the fields.  Whoever reads the one or the
other gets the same template, apart from the order of its components and buckets.
-/

namespace TemplateMarkup

open Decoder

namespace Template

/-- The templates are equal but for the order in which components and buckets are listed. -/
structure IsReorderingOf (first second : Template) : Prop where
  sourcePath : first.sourcePath = second.sourcePath
  main : first.main = second.main
  inlineComponents : first.inlineComponents.entries.Perm second.inlineComponents.entries
  buckets : first.buckets.entries.Perm second.buckets.entries
  imports : first.imports = second.imports

theorem byName_isReorderingOf (template : Template) : template.byName.IsReorderingOf template where
  sourcePath := rfl
  main := rfl
  inlineComponents := template.inlineComponents.perm_byName
  buckets := template.buckets.perm_byName
  imports := rfl

end Template

namespace Report

/-- What a line reports, in the order of the names. -/
def lineValue (name : String) (template : Template) : Json :=
  .object
    [("data", template.encode.sorted), ("file", .string name), ("type", .string "template")]

theorem parsed_json (name : String) (template : Template) :
    parsed .json name template = line (lineValue name template).render := by
  have fileLater : ¬ "file" < "data" := by decide
  have typeLater : ¬ "type" < "data" := by decide
  have typeLast : ¬ "type" < "file" := by decide
  simp only [parsed, jsonLine, lineValue, Json.sorted, Json.sortedMembers, Json.insertSorted,
    if_neg fileLater, if_neg typeLater, if_neg typeLast]

/-- Read the template under `data` from an object that says more. -/
def decodeData : Decoder Template :=
  record ["data"] fun depth fields => fields.required "data" (Template.decode depth)

/-- A text says of a template of some name what there is to say on a line.  What stands under `data`
is read as `decoded`. -/
structure LineShows (name : String) (template : Template) (text : String) (data : Outline)
    (decoded : Template) : Prop where
  printed : parsed .json name template = line text
  oneLine : '\n' ∉ text.toList
  /-- The text is a single object without a rest. -/
  object : Outline.ofText text =
    (.object
      [(some "data", data), (some "file", .string (some name)),
        (some "type", .string (some "template"))] true, true)
  sound : ∀ depth, template.encode.nesting ≤ depth →
    (Outline.ofText text).1.isSound (depth + 1) = true
  decodes : ∀ depth, template.encode.nesting ≤ depth → Template.decode depth data = .ok decoded
  /-- The line can be read as a whole if there is room for the object around the data. -/
  decodesWhole : template.encode.nesting < depthLimit →
    decodeData.run (parsed .json name template) = .ok decoded

variable {template : Template}

theorem line_shows (name : String) (readable : AreReadable template.positions) :
    LineShows name template (lineValue name template).render template.encode.sorted.outline
      template.byName where
  printed := parsed_json name template
  oneLine isThere := by
    have printable := Json.isPrintable_render _ '\n' isThere
    exact absurd printable (by decide)
  object := Outline.ofText_render _
  sound depth fits := by
    have data : template.encode.sorted.outline.isSound depth = true :=
      (template.encode.isSound_outline_sorted depth).trans
        (Json.isSound_outline template.isNumberless_encode fits)
    rw [Outline.ofText_render]
    simp [lineValue, Json.outline, Json.memberOutlines, Outline.isSound, Outline.membersAreSound,
      data]
  decodes depth fits := Template.decode_sorted readable fits
  decodesWhole fits := by
    obtain ⟨spare, limit⟩ := Nat.exists_eq_add_of_lt fits
    have data : decodeData depthLimit (lineValue name template).outline = .ok template.byName := by
      rw [limit]
      exact record_ofMembers (by decide : ["data", "file", "type"].Nodup)
        (Fields.field_of_lookup rfl (Template.decode_sorted readable (Nat.le_add_right _ spare)))
    rw [parsed_json, line]
    simp only [run, Outline.ofText_render_lineBreak, data]
    rfl

end Report

namespace Run

theorem endsInName_target (outDir : Path) (name : String) : (target outDir name).EndsInName := by
  obtain ⟨start, isText⟩ := outDir.exists_append_join String.toList_append
  exact Path.endsInName_of_append isText (by decide) (by decide)

/-- The file of a template holds its document. -/
theorem readText?_of_write {system after : FileSystem} {outDir : Path} {name : String}
    {template : Template} (isWritten : write system (target outDir name) template = .ok after) :
    after.readText? (target outDir name) = some (Report.document template) := by
  unfold write at isWritten
  cases ready : prepare system (target outDir name) with
  | error failure =>
      rw [ready] at isWritten
      cases isWritten
  | ok prepared =>
      simp only [ready, bind, Except.bind] at isWritten
      split at isWritten
      · next later isLater =>
          cases isWritten
          rw [FileSystem.readText?,
            FileSystem.read?_of_write? (endsInName_target outDir name) isLater]
          exact dif_pos (Report.document template).isValidUTF8
      · cases isWritten

end Run

namespace Report

variable {template : Template}

/-- The document of a template is read as the template, on standard output as well as in a file. -/
structure DocumentShows (name : String) (template : Template) : Prop where
  printed : Template.decode.run (parsed .pretty name template) = .ok template
  written : ∀ system outDir after, Run.write system (Run.target outDir name) template = .ok after →
    ∃ text, after.readText? (Run.target outDir name) = some text ∧
      Template.decode.run text = .ok template

theorem document_shows (name : String) (readable : AreReadable template.positions)
    (fits : template.encode.nesting ≤ depthLimit) : DocumentShows name template where
  printed := by
    simp only [run, parsed, line, document, Outline.ofText_renderPretty_lineBreak,
      (Template.undoes _).reads readable fits]
    rfl
  written system outDir after isWritten := by
    refine ⟨document template, Run.readText?_of_write isWritten, ?_⟩
    exact (roundTrips_of_undoes (Template.undoes _)).written template readable fits

/-- The line and the document of a template are read as the same template, whose components and
buckets the line may list in another order. -/
theorem line_agrees_with_document (name : String) (readable : AreReadable template.positions)
    (fits : template.encode.nesting ≤ depthLimit) :
    ∃ text data decoded, LineShows name template text data decoded ∧
      DocumentShows name template ∧ decoded.IsReorderingOf template :=
  ⟨_, _, _, line_shows name readable, document_shows name readable fits,
    template.byName_isReorderingOf⟩

/-- Two components and two buckets that are not in the order of their names. -/
def unorderedTemplate : Template :=
  let component : Component :=
    ⟨⟨.bare "" ⟨1, 1⟩, [.text "\n\"é\"" ⟨1, 2⟩, .element (.bare "p" ⟨2, 1⟩) []]⟩, false,
      NameSet.ofList ["foot", "head"], some "string"⟩
  { sourcePath := some "card.html"
    main := component
    inlineComponents := NameMap.ofList [("Row", component), ("Cell", component)]
    buckets := NameMap.ofList
      [("page", ⟨[⟨.path "./a.js", "page", ⟨3, 1⟩⟩], []⟩),
        ("default", ⟨[], [⟨.content "p \x7b\x7d", ⟨4, 1⟩⟩]⟩)]
    imports := [⟨some "Item", "./item.html", ⟨5, 1⟩⟩] }

theorem unorderedTemplate_agrees :
    AreReadable unorderedTemplate.positions ∧ unorderedTemplate.encode.nesting ≤ depthLimit ∧
      ∃ text data decoded, LineShows "card.html" unorderedTemplate text data decoded ∧
        DocumentShows "card.html" unorderedTemplate ∧
        decoded.IsReorderingOf unorderedTemplate := by
  have readable : AreReadable unorderedTemplate.positions := by decide
  have fits : unorderedTemplate.encode.nesting ≤ depthLimit := by decide
  exact ⟨readable, fits, line_agrees_with_document "card.html" readable fits⟩

end Report

end TemplateMarkup
