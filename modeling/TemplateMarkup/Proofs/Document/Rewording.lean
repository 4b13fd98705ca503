import Mathlib.Data.List.Nodup
import TemplateMarkup.Assembly.Basic
import TemplateMarkup.Proofs.Document.Positions

/-!
# Rewordings

A rewording changes the texts of a document one by one, and moves its positions and spans.  It keeps
everything that the structure of a template depends on: which texts are equal, the words without line
feeds among which are all names with a meaning, where the white space of a text is, and which paths
lie within the project.

This file says what a rewording makes of every part of a document, and that looking something up by a
word that it keeps gives the same before and after it.
-/

namespace TemplateMarkup

/-- A change of texts, positions and spans that keeps what the structure of a template depends on. -/
structure Rewording where
  text : String → String
  place : Position → Position
  span : Span → Span
  injective : Function.Injective text
  /-- A text on one line is kept. -/
  keeps_line : ∀ {line : String}, '\n' ∉ line.toList → text line = line
  /-- White space is found at the same places. -/
  apply_policy : ∀ (policy : WhitespacePolicy) (written : String),
    String.ofList (policy.apply (text written).toList) =
      text (String.ofList (policy.apply written.toList))
  isRelativePath_text : ∀ path : String,
    Destination.isRelativePath (text path) = Destination.isRelativePath path

namespace Rewording

variable (rewording : Rewording)

theorem text_eq_line (line : String) (oneLine : '\n' ∉ line.toList) (written : String) :
    rewording.text written = line ↔ written = line := by
  constructor
  · intro equal
    exact rewording.injective (equal.trans (rewording.keeps_line oneLine).symm)
  · intro equal
    rw [equal, rewording.keeps_line oneLine]

theorem text_beq_line (line : String) (oneLine : '\n' ∉ line.toList) (written : String) :
    (rewording.text written == line) = (written == line) := by
  rw [Bool.eq_iff_iff, beq_iff_eq, beq_iff_eq]
  exact rewording.text_eq_line line oneLine written

theorem text_beq_text (first second : String) :
    (rewording.text first == rewording.text second) = (first == second) := by
  rw [Bool.eq_iff_iff, beq_iff_eq, beq_iff_eq]
  exact rewording.injective.eq_iff

@[simp]
theorem isEmpty_text (written : String) :
    (rewording.text written).isEmpty = written.isEmpty := by
  rw [Bool.eq_iff_iff, String.isEmpty_iff, String.isEmpty_iff]
  exact rewording.text_eq_line "" (by decide) written

theorem filter_nonempty_text (written : Option String) :
    (written.map rewording.text).filter (!·.isEmpty) =
      (written.filter (!·.isEmpty)).map rewording.text := by
  cases written with
  | none => rfl
  | some written =>
      cases empty : written.isEmpty <;> simp [Option.filter, empty]

theorem find?_text {α β : Type} (change : α → β) (nameOf : α → String) (newName : β → String)
    (renames : ∀ item, newName (change item) = rewording.text (nameOf item))
    {name : String} (oneLine : '\n' ∉ name.toList) (items : List α) :
    (items.map change).find? (newName · == name) =
      (items.find? (nameOf · == name)).map change := by
  rw [List.find?_map]
  congr 2
  funext item
  rw [Function.comp_apply, renames]
  exact rewording.text_beq_line name oneLine _

/-- Forget all positions and spans. -/
def unplaced : Rewording where
  text := id
  place _ := .start
  span _ := ⟨0, 0⟩
  injective := Function.injective_id
  keeps_line _ := rfl
  apply_policy _ _ := rfl
  isRelativePath_text _ := rfl

end Rewording

variable (rewording : Rewording)

def StaticAttribute.reword (written : StaticAttribute) : StaticAttribute :=
  ⟨rewording.text written.name, written.value.map rewording.text, rewording.place written.position⟩

/-- What is known of the expression stays as it was. -/
def Directive.reword (directive : Directive) : Directive :=
  { name := rewording.text directive.name
    modifier := directive.modifier.map rewording.text
    value := directive.value.map rewording.text
    referencesProps := directive.referencesProps
    isAsync := directive.isAsync
    position := rewording.place directive.position }

def Tag.reword (tag : Tag) : Tag :=
  { name := rewording.text tag.name
    attributes := tag.attributes.map (·.reword rewording)
    directives := tag.directives.map (·.reword rewording)
    position := rewording.place tag.position }

def Attribute.reword : Attribute → Attribute
  | .plain written => .plain (written.reword rewording)
  | .directive written => .directive (written.reword rewording)

theorem Attribute.filterMap_plain?_reword (attributes : List Attribute) :
    (attributes.map (·.reword rewording)).filterMap plain? =
      (attributes.filterMap plain?).map (·.reword rewording) := by
  rw [List.filterMap_map, List.map_filterMap]
  congr 1
  funext written
  cases written <;> rfl

theorem Attribute.filterMap_directive?_reword (attributes : List Attribute) :
    (attributes.map (·.reword rewording)).filterMap directive? =
      (attributes.filterMap directive?).map (·.reword rewording) := by
  rw [List.filterMap_map, List.map_filterMap]
  congr 1
  funext written
  cases written <;> rfl

theorem Directive.argument?_reword (directive : Directive) :
    (directive.reword rewording).argument? = directive.argument?.map rewording.text := by
  unfold argument?
  rw [show (directive.reword rewording).value = directive.value.map rewording.text from rfl,
    show (directive.reword rewording).modifier = directive.modifier.map rewording.text from rfl,
    rewording.filter_nonempty_text, rewording.filter_nonempty_text]
  cases directive.value.filter (!·.isEmpty) <;> rfl

namespace Tag

variable (tag : Tag) (name : String)

@[simp]
theorem name_reword : (tag.reword rewording).name = rewording.text tag.name :=
  rfl

@[simp]
theorem position_reword : (tag.reword rewording).position = rewording.place tag.position :=
  rfl

theorem value?_reword (oneLine : '\n' ∉ name.toList) :
    (tag.reword rewording).value? name = (tag.value? name).map rewording.text := by
  unfold value? staticAttribute?
  rw [show (tag.reword rewording).attributes = tag.attributes.map (·.reword rewording) from rfl,
    rewording.find?_text (StaticAttribute.reword rewording) StaticAttribute.name
      StaticAttribute.name (fun _ => rfl) oneLine]
  cases tag.attributes.find? (·.name == name) <;> rfl

theorem nonemptyValue?_reword (oneLine : '\n' ∉ name.toList) :
    (tag.reword rewording).nonemptyValue? name =
      (tag.nonemptyValue? name).map rewording.text := by
  unfold nonemptyValue?
  rw [value?_reword rewording tag name oneLine, rewording.filter_nonempty_text]

theorem directive?_reword (oneLine : '\n' ∉ name.toList) :
    (tag.reword rewording).directive? name =
      (tag.directive? name).map (·.reword rewording) :=
  rewording.find?_text (Directive.reword rewording) Directive.name Directive.name (fun _ => rfl)
    oneLine tag.directives

theorem hasDirective_reword (oneLine : '\n' ∉ name.toList) :
    (tag.reword rewording).hasDirective name = tag.hasDirective name := by
  rw [hasDirective, directive?_reword rewording tag name oneLine, Option.isSome_map, hasDirective]

theorem argument?_reword (oneLine : '\n' ∉ name.toList) :
    (tag.reword rewording).argument? name = (tag.argument? name).map rewording.text := by
  unfold argument?
  rw [directive?_reword rewording tag name oneLine]
  cases tag.directive? name with
  | none => rfl
  | some directive => exact directive.argument?_reword rewording

end Tag

namespace TagName

theorem isVoid_text (name : String) : isVoid (rewording.text name) = isVoid name := by
  have oneLine : ∀ void ∈ voidNames, '\n' ∉ void.toList := by decide
  unfold isVoid
  rw [Bool.eq_iff_iff, List.contains_iff_mem, List.contains_iff_mem]
  constructor
  · intro member
    exact (rewording.text_eq_line _ (oneLine _ member) name).mp rfl ▸ member
  · intro member
    exact (rewording.keeps_line (oneLine _ member)).symm ▸ member

theorem hasForeignBody_text (name : String) :
    hasForeignBody (rewording.text name) = hasForeignBody name := by
  rw [hasForeignBody, rewording.text_beq_line _ (by decide), rewording.text_beq_line _ (by decide),
    hasForeignBody]

theorem keepsWhitespace_text (name : String) :
    keepsWhitespace (rewording.text name) = keepsWhitespace name := by
  rw [keepsWhitespace, rewording.text_beq_line _ (by decide), rewording.text_beq_line _ (by decide),
    keepsWhitespace]

end TagName

theorem Tag.isVoid_reword (tag : Tag) : (tag.reword rewording).isVoid = tag.isVoid :=
  TagName.isVoid_text rewording tag.name

theorem Tag.componentName?_reword (tag : Tag) :
    (tag.reword rewording).componentName? = tag.componentName?.map rewording.text := by
  unfold componentName?
  rw [name_reword, rewording.text_beq_line _ (by decide), argument?_reword rewording tag _ (by decide)]
  split <;> rfl

namespace Node

mutual

def reword (rewording : Rewording) : Node → Node
  | .text content position => .text (rewording.text content) (rewording.place position)
  | .element tag children => .element (tag.reword rewording) (rewordAll rewording children)

def rewordAll (rewording : Rewording) : List Node → List Node
  | [] => []
  | node :: rest => node.reword rewording :: rewordAll rewording rest

end

theorem rewordAll_eq_map (nodes : List Node) :
    rewordAll rewording nodes = nodes.map (·.reword rewording) := by
  induction nodes with
  | nil => rfl
  | cons node rest ih => rw [rewordAll, ih, List.map_cons]

end Node

def Element.reword (element : Element) : Element :=
  ⟨element.tag.reword rewording, Node.rewordAll rewording element.children⟩

theorem Element.toNode_reword (element : Element) :
    (element.reword rewording).toNode = element.toNode.reword rewording :=
  rfl

namespace NameSet

def reword (set : NameSet) : NameSet :=
  ⟨set.names.map rewording.text, (List.nodup_map_iff rewording.injective).mpr set.distinct⟩

theorem eq_of_names {first second : NameSet} (names : first.names = second.names) :
    first = second := by
  cases first
  cases second
  congr

theorem insert_reword (set : NameSet) (name : String) :
    (set.reword rewording).insert (rewording.text name) = (set.insert name).reword rewording := by
  apply eq_of_names
  by_cases present : name ∈ set.names
  · have stillPresent : rewording.text name ∈ (set.reword rewording).names :=
      List.mem_map_of_mem present
    rw [names_insert_of_mem stillPresent]
    simp [reword, names_insert_of_mem present]
  · have stillAbsent : rewording.text name ∉ (set.reword rewording).names := by
      simpa [reword, rewording.injective.eq_iff] using present
    rw [names_insert_of_not_mem stillAbsent]
    simp [reword, names_insert_of_not_mem present]

end NameSet

namespace NameMap

variable {α β : Type}

def rewordEntry (change : α → β) (entry : String × α) : String × β :=
  (rewording.text entry.1, change entry.2)

theorem map_fst_map_rewordEntry (change : α → β) (entries : List (String × α)) :
    (entries.map (rewordEntry rewording change)).map Prod.fst =
      (entries.map Prod.fst).map rewording.text := by
  rw [List.map_map, List.map_map]
  rfl

/-- Reword the names of a map and change its values. -/
def reword (change : α → β) (map : NameMap α) : NameMap β where
  entries := map.entries.map (rewordEntry rewording change)
  distinct := by
    rw [map_fst_map_rewordEntry]
    exact (List.nodup_map_iff rewording.injective).mpr map.distinct

theorem eq_of_entries {first second : NameMap α} (entries : first.entries = second.entries) :
    first = second := by
  cases first
  cases second
  congr

theorem contains_reword (change : α → β) (map : NameMap α) (name : String) :
    (map.reword rewording change).contains (rewording.text name) = map.contains name := by
  unfold contains names
  rw [reword, map_fst_map_rewordEntry, Bool.eq_iff_iff, List.contains_iff_mem,
    List.contains_iff_mem]
  exact List.mem_map_of_injective rewording.injective

theorem find?_reword (change : α → β) (map : NameMap α) (name : String) :
    (map.reword rewording change).find? (rewording.text name) = (map.find? name).map change := by
  show (map.entries.map _).lookup _ = (map.entries.lookup _).map _
  induction map.entries with
  | nil => rfl
  | cons entry rest ih =>
      rw [List.map_cons, rewordEntry, List.lookup_cons, rewording.text_beq_text, List.lookup_cons, ih]
      cases name == entry.1 <;> rfl

theorem replaceIn_reword (change : α → β) (entries : List (String × α)) (name : String)
    (value : α) :
    replaceIn (entries.map (rewordEntry rewording change)) (rewording.text name) (change value) =
      (replaceIn entries name value).map (rewordEntry rewording change) := by
  unfold replaceIn
  rw [List.map_map, List.map_map]
  apply List.map_congr_left
  intro entry _
  by_cases same : entry.1 = name
  · simp [rewordEntry, same]
  · simp [rewordEntry, same, rewording.injective.eq_iff]

theorem insert_reword (change : α → β) (map : NameMap α) (name : String) (value : α) :
    (map.reword rewording change).insert (rewording.text name) (change value) =
      (map.insert name value).reword rewording change := by
  apply eq_of_entries
  by_cases absent : name ∉ map.entries.map Prod.fst
  · have stillAbsent : rewording.text name ∉
        (map.reword rewording change).entries.map Prod.fst := by
      rw [reword, map_fst_map_rewordEntry]
      simpa [rewording.injective.eq_iff] using absent
    simp only [insert, dif_pos absent, dif_pos stillAbsent]
    simp [reword, rewordEntry]
  · have stillPresent : ¬ rewording.text name ∉
        (map.reword rewording change).entries.map Prod.fst := by
      rw [reword, map_fst_map_rewordEntry]
      simpa [rewording.injective.eq_iff] using absent
    simp only [insert, dif_neg absent, dif_neg stillPresent]
    exact replaceIn_reword rewording change map.entries name value

theorem update_reword (change : α → β) (map : NameMap α) (name : String) (initial : α)
    (revise : α → α) (revise' : β → β)
    (revises : ∀ value, revise' (change value) = change (revise value)) :
    (map.reword rewording change).update (rewording.text name) (change initial) revise' =
      (map.update name initial revise).reword rewording change := by
  unfold update
  rw [find?_reword, ← insert_reword, ← revises]
  cases map.find? name <;> rfl

theorem filterMap_reword {γ δ : Type} (change : α → β) (change' : γ → δ)
    (keep : α → Option γ) (keep' : β → Option δ)
    (keeps : ∀ value, keep' (change value) = (keep value).map change') (map : NameMap α) :
    (map.reword rewording change).filterMap keep' =
      (map.filterMap keep).reword rewording change' := by
  apply eq_of_entries
  show filterEntries _ (map.entries.map _) = (filterEntries _ map.entries).map _
  induction map.entries with
  | nil => rfl
  | cons entry rest ih =>
      rw [List.map_cons, rewordEntry, filterEntries, keeps, filterEntries, ih]
      cases keep entry.2 <;> rfl

end NameMap

def Component.reword (component : Component) : Component :=
  { root := component.root.reword rewording
    hasDefaultSlot := component.hasDefaultSlot
    namedSlots := component.namedSlots.reword rewording
    propTypes := component.propTypes.map rewording.text }

def AssetSource.reword : AssetSource → AssetSource
  | .content written => .content (rewording.text written)
  | .path written => .path (rewording.text written)

def Script.reword (script : Script) : Script :=
  ⟨script.source.reword rewording, rewording.text script.scope, rewording.place script.position⟩

def Style.reword (style : Style) : Style :=
  ⟨style.source.reword rewording, rewording.place style.position⟩

def Bucket.reword (bucket : Bucket) : Bucket :=
  ⟨bucket.scripts.map (·.reword rewording), bucket.styles.map (·.reword rewording)⟩

def ComponentImport.reword (imported : ComponentImport) : ComponentImport :=
  ⟨imported.name.map rewording.text, rewording.text imported.path, rewording.place imported.position⟩

/-- Reword everything that a template says.  Its own path is not part of that. -/
def Template.reword (template : Template) : Template :=
  { sourcePath := template.sourcePath
    main := template.main.reword rewording
    inlineComponents := template.inlineComponents.reword rewording (·.reword rewording)
    buckets := template.buckets.reword rewording (·.reword rewording)
    imports := template.imports.map (·.reword rewording) }

def StructuralFault.reword : StructuralFault → StructuralFault
  | .unmatchedClosingTag name => .unmatchedClosingTag (rewording.text name)
  | .unexpectedScopeClose => .unexpectedScopeClose
  | .duplicateComponent name => .duplicateComponent (rewording.text name)

def ParseError.reword (error : ParseError) : ParseError :=
  ⟨error.fault.reword rewording, rewording.place error.position, rewording.span error.span⟩

/-- What is made of a value or of the error in its place. -/
def Rewording.outcome {α : Type} (change : α → α) :
    Except ParseError α → Except ParseError α
  | .ok value => .ok (change value)
  | .error error => .error (error.reword rewording)

theorem StructuralFault.code_reword (fault : StructuralFault) :
    (fault.reword rewording).code = fault.code := by
  cases fault <;> rfl

/-- The rewording keeps all texts and all positions. -/
structure Rewording.Keeps (rewording : Rewording) : Prop where
  text : ∀ written, rewording.text written = written
  place : ∀ position, rewording.place position = position

section Keeps

variable {rewording : Rewording} (keeps : rewording.Keeps)
include keeps

theorem Rewording.Keeps.map_text (written : Option String) :
    written.map rewording.text = written := by
  rw [funext keeps.text]
  exact Option.map_id'

theorem StaticAttribute.reword_eq_self (written : StaticAttribute) :
    written.reword rewording = written := by
  simp only [reword, keeps.text, keeps.place, keeps.map_text]

theorem Directive.reword_eq_self (directive : Directive) :
    directive.reword rewording = directive := by
  simp only [reword, keeps.text, keeps.place, keeps.map_text]

theorem Tag.reword_eq_self (tag : Tag) : tag.reword rewording = tag := by
  rw [reword, List.map_id'' (StaticAttribute.reword_eq_self keeps),
    List.map_id'' (Directive.reword_eq_self keeps), keeps.text, keeps.place]

theorem Node.reword_eq_self (node : Node) : node.reword rewording = node := by
  induction node using Node.induction with
  | text content position => rw [reword, keeps.text, keeps.place]
  | element tag children ih =>
      rw [reword, rewordAll_eq_map, Tag.reword_eq_self keeps, List.map_congr_left ih, List.map_id']

theorem Component.reword_eq_self (component : Component) :
    component.reword rewording = component := by
  have root : component.root.reword rewording = component.root := by
    rw [Element.reword, Tag.reword_eq_self keeps, Node.rewordAll_eq_map,
      List.map_id'' (Node.reword_eq_self keeps)]
  have slots : component.namedSlots.reword rewording = component.namedSlots :=
    NameSet.eq_of_names (List.map_id'' keeps.text _)
  rw [reword, root, slots, keeps.map_text]

theorem Bucket.reword_eq_self (bucket : Bucket) : bucket.reword rewording = bucket := by
  have source (source : AssetSource) : source.reword rewording = source := by
    cases source with
    | content text => rw [AssetSource.reword, keeps.text]
    | path location => rw [AssetSource.reword, keeps.text]
  have script (script : Script) : script.reword rewording = script := by
    rw [Script.reword, source, keeps.text, keeps.place]
  have style (style : Style) : style.reword rewording = style := by
    rw [Style.reword, source, keeps.place]
  rw [reword, List.map_id'' script, List.map_id'' style]

theorem NameMap.reword_eq_self {α : Type} {change : α → α} (changes : ∀ value, change value = value)
    (map : NameMap α) : map.reword rewording change = map := by
  apply eq_of_entries
  refine List.map_id'' (fun entry => ?_) map.entries
  rw [rewordEntry, keeps.text, changes]

theorem Template.reword_eq_self (template : Template) : template.reword rewording = template := by
  have imported (imported : ComponentImport) : imported.reword rewording = imported := by
    rw [ComponentImport.reword, keeps.text, keeps.place, keeps.map_text]
  rw [reword, Component.reword_eq_self keeps,
    NameMap.reword_eq_self keeps (Component.reword_eq_self keeps),
    NameMap.reword_eq_self keeps (Bucket.reword_eq_self keeps), List.map_id'' imported]

end Keeps

end TemplateMarkup
