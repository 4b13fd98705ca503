import TemplateMarkup.Json.Decode
import TemplateMarkup.Proofs.Json.Tokens

/-!
# The outline of a written value

The tokens of a value lead the reader through the whole of the value and no further, whatever the
containers around it are.  So the text of a value has the outline of the value, and nothing is left of
it.
-/

namespace TemplateMarkup

namespace Json

mutual

/-- The outline of a value that is read completely. -/
def outline : Json → Outline
  | null => .null
  | bool value => .bool value
  | number value => .number (JsonToken.classifyNumber false (Nat.toDigits 10 value) [] none)
  | string text => .string (some text)
  | array items => .array (outlines items) true
  | object members => .object (memberOutlines members) true

def outlines : List Json → List Outline
  | [] => []
  | item :: rest => item.outline :: outlines rest

def memberOutlines : List (String × Json) → List (Option String × Outline)
  | [] => []
  | (name, value) :: rest => (some name, value.outline) :: memberOutlines rest

end

end Json

namespace Outline

/-- Go on reading, unless the outermost value has ended. -/
def goOn (progress : Progress) (rest : List JsonToken) : Outline × List JsonToken :=
  match progress with
  | .done outline => (outline, rest)
  | .reading expected frames => readTokens expected frames rest

@[simp]
theorem goOn_reading (expected : Expected) (frames : List Frame) (rest : List JsonToken) :
    goOn (.reading expected frames) rest = readTokens expected frames rest :=
  rfl

theorem readTokens_cons (expected : Expected) (frames : List Frame) (token : JsonToken)
    (rest : List JsonToken) :
    readTokens expected frames (token :: rest) = goOn (take expected frames token) rest := by
  rw [readTokens]
  cases take expected frames token <;> rfl

/-- The tokens of the value are read as the value, whatever stands around and after it. -/
def ReadsBack (value : Json) : Prop :=
  ∀ (frames : List Frame) (rest : List JsonToken),
    readTokens .value frames (value.tokens ++ rest) = goOn (deliver value.outline frames) rest

/-- The first item of an array is read as any other. -/
theorem readTokens_firstItem (value : Json) (frames : List Frame) (rest : List JsonToken) :
    readTokens .firstItem frames (value.tokens ++ rest) =
      readTokens .value (.array [] :: frames) (value.tokens ++ rest) := by
  cases value with
  | array items => cases items <;> rfl
  | object members =>
      rcases members with _ | ⟨⟨name, value⟩, later⟩ <;> rfl
  | _ => rfl

theorem readTokens_itemTokens {items : List Json} (readBack : ∀ item ∈ items, ReadsBack item)
    (read : List Outline) (frames : List Frame) (rest : List JsonToken) :
    readTokens (.nextItem read) frames (Json.itemTokens items ++ rest) =
      goOn (deliver (.array (read.reverse ++ Json.outlines items) true) frames) rest := by
  induction items generalizing read with
  | nil => rw [Json.itemTokens, List.singleton_append, readTokens_cons, Json.outlines,
      List.append_nil, take]
  | cons item later ih =>
      have first := readBack item (by simp)
      rw [Json.itemTokens, List.cons_append, readTokens_cons, List.append_assoc]
      refine (first (.array read :: frames) _).trans ?_
      refine (ih (fun other member => readBack other (List.mem_cons_of_mem _ member)) _).trans ?_
      simp [Json.outlines]

theorem readTokens_memberTokens {members : List (String × Json)}
    (readBack : ∀ member ∈ members, ReadsBack (Prod.snd member))
    (read : List (Option String × Outline)) (frames : List Frame) (rest : List JsonToken) :
    readTokens (.nextMember read) frames (Json.memberTokens members ++ rest) =
      goOn (deliver (.object (read.reverse ++ Json.memberOutlines members) true) frames) rest := by
  induction members generalizing read with
  | nil => rw [Json.memberTokens, List.singleton_append, readTokens_cons, Json.memberOutlines,
      List.append_nil, take]
  | cons member later ih =>
      obtain ⟨name, value⟩ := member
      have first : ReadsBack value := readBack (name, value) (by simp)
      rw [Json.memberTokens]
      simp only [List.cons_append, readTokens_cons, take, goOn_reading, List.append_assoc]
      refine (first (.member read (some name) :: frames) _).trans ?_
      refine (ih (fun other member => readBack other (List.mem_cons_of_mem _ member)) _).trans ?_
      simp [Json.memberOutlines]

theorem readsBack (value : Json) : ReadsBack value := by
  induction value using Json.induction with
  | null => exact fun _ _ => readTokens_cons _ _ _ _
  | bool value => exact fun _ _ => readTokens_cons _ _ _ _
  | number value => exact fun _ _ => readTokens_cons _ _ _ _
  | string text => exact fun _ _ => readTokens_cons _ _ _ _
  | array items ih =>
      intro frames rest
      cases items with
      | nil => rw [Json.tokens, List.cons_append, readTokens_cons]; exact readTokens_cons _ _ _ _
      | cons item later =>
          have first := ih item (by simp)
          rw [Json.tokens, List.cons_append, readTokens_cons, List.append_assoc]
          refine (readTokens_firstItem item frames _).trans ((first _ _).trans ?_)
          exact readTokens_itemTokens
            (fun other member => ih other (List.mem_cons_of_mem _ member)) _ _ _
  | object members ih =>
      intro frames rest
      cases members with
      | nil => rw [Json.tokens, List.cons_append, readTokens_cons]; exact readTokens_cons _ _ _ _
      | cons member later =>
          obtain ⟨name, value⟩ := member
          have first : ReadsBack value := ih (name, value) (by simp)
          rw [Json.tokens]
          simp only [List.cons_append, readTokens_cons, take, beginValue, goOn_reading,
            List.append_assoc]
          refine (first _ _).trans ?_
          exact readTokens_memberTokens
            (fun other member => ih other (List.mem_cons_of_mem _ member)) _ _ _

/-- The text of a value on many lines has its outline and no rest. -/
theorem ofText_renderPretty (value : Json) : ofText value.renderPretty = (value.outline, true) := by
  have read := readsBack value [] []
  rw [List.append_nil] at read
  rw [ofText, Json.scan_renderPretty, read]
  rfl

end Outline

end TemplateMarkup
