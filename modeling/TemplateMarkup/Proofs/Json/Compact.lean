import TemplateMarkup.Proofs.Json.Outline

/-!
# Values on one line

The text of a value on one line has the same tokens as its text on many lines, so it is read as the
same value.  It has no control characters: there are none between the tokens, and those in a string are
escaped.
-/

namespace TemplateMarkup

namespace Json

open JsonToken

theorem endsNumber_writeCompactItems (items : List Json) (after : List Char) :
    EndsNumber (writeCompactItems items after) := by
  cases items with
  | nil =>
      rintro _ ⟨⟩
      decide
  | cons item rest =>
      rintro _ ⟨⟩
      decide

theorem endsNumber_writeCompactMembers (members : List (String × Json)) (after : List Char) :
    EndsNumber (writeCompactMembers members after) := by
  cases members with
  | nil =>
      rintro _ ⟨⟩
      decide
  | cons member rest =>
      rintro _ ⟨⟩
      decide

/-- The text of the value on one line is split into its tokens, wherever it stands. -/
def ScansCompact (value : Json) : Prop :=
  ∀ {after : List Char}, EndsNumber after →
    scan (value.writeCompact after) = value.tokens ++ scan after

theorem scan_writeCompactItems {items : List Json} (scans : ∀ item ∈ items, ScansCompact item)
    (after : List Char) :
    scan (writeCompactItems items after) = itemTokens items ++ scan after := by
  induction items with
  | nil =>
      rw [writeCompactItems, scan_mark ']' .closeArray _ (by simp)]
      rfl
  | cons item rest ih =>
      have first := scans item (by simp) (endsNumber_writeCompactItems rest after)
      have later := ih fun other member => scans other (by simp [member])
      rw [writeCompactItems, scan_mark ',' .comma _ (by simp), first, later, itemTokens,
        List.cons_append, List.append_assoc]

theorem scan_writeCompactMembers {members : List (String × Json)}
    (scans : ∀ member ∈ members, ScansCompact (Prod.snd member)) (after : List Char) :
    scan (writeCompactMembers members after) = memberTokens members ++ scan after := by
  induction members with
  | nil =>
      rw [writeCompactMembers, scan_mark '}' .closeObject _ (by simp)]
      rfl
  | cons member rest ih =>
      obtain ⟨name, value⟩ := member
      have isFirst : ScansCompact value := scans (name, value) (by simp)
      have first := isFirst (endsNumber_writeCompactMembers rest after)
      have later := ih fun other member => scans other (by simp [member])
      rw [writeCompactMembers, scan_mark ',' .comma _ (by simp), scan_writeString,
        scan_mark ':' .colon _ (by simp), first, later, memberTokens, List.cons_append,
        List.cons_append, List.cons_append, List.append_assoc]

theorem scansCompact (value : Json) : ScansCompact value := by
  induction value using Json.induction with
  | null =>
      intro after _
      exact scan_null after
  | bool value =>
      intro after _
      exact scan_writeBool value after
  | number value =>
      intro after ends
      exact scan_toDigits value ends
  | string text =>
      intro after _
      exact scan_writeString text after
  | array items ih =>
      intro after _
      cases items with
      | nil =>
          rw [writeCompact, scan_mark '[' .openArray _ (by simp),
            scan_mark ']' .closeArray _ (by simp)]
          rfl
      | cons item rest =>
          have first := ih item (by simp) (endsNumber_writeCompactItems rest after)
          have later := scan_writeCompactItems
            (fun other member => ih other (List.mem_cons_of_mem _ member)) after
          rw [writeCompact, scan_mark '[' .openArray _ (by simp), first, later, tokens,
            List.cons_append, List.append_assoc]
  | object members ih =>
      intro after _
      cases members with
      | nil =>
          rw [writeCompact, scan_mark '{' .openObject _ (by simp),
            scan_mark '}' .closeObject _ (by simp)]
          rfl
      | cons member rest =>
          obtain ⟨name, value⟩ := member
          have isFirst : ScansCompact value := ih (name, value) (by simp)
          have first := isFirst (endsNumber_writeCompactMembers rest after)
          have later := scan_writeCompactMembers
            (fun other member => ih other (List.mem_cons_of_mem _ member)) after
          rw [writeCompact, scan_mark '{' .openObject _ (by simp), scan_writeString,
            scan_mark ':' .colon _ (by simp), first, later, tokens, List.cons_append,
            List.cons_append, List.cons_append, List.append_assoc]

/-- The text of a value on one line is made of its tokens. -/
theorem scan_render (value : Json) : scan value.render.toList = value.tokens := by
  have ends : EndsNumber [] := by rintro _ ⟨⟩
  rw [render, String.toList_ofList, compact, value.scansCompact ends, scan, List.append_nil]

/-- There are no control characters in a text, so it is on one line. -/
def IsPrintable (text : List Char) : Prop := ∀ character ∈ text, 32 ≤ character.toNat

instance (text : List Char) : Decidable (IsPrintable text) :=
  List.decidableBAll (32 ≤ Char.toNat ·) text

section

variable {text first second after : List Char} {character : Char}

theorem isPrintable_cons (isFirst : 32 ≤ character.toNat) (rest : IsPrintable text) :
    IsPrintable (character :: text) :=
  List.forall_mem_cons.mpr ⟨isFirst, rest⟩

theorem isPrintable_append (isFirst : IsPrintable first) (isSecond : IsPrintable second) :
    IsPrintable (first ++ second) :=
  List.forall_mem_append.mpr ⟨isFirst, isSecond⟩

theorem isPrintable_hexDigit {value : Nat} (small : value < 16) :
    32 ≤ (hexDigit value).toNat := by
  have all : ∀ value < 16, 32 ≤ (hexDigit value).toNat := by decide
  exact all value small

/-- A character is escaped if it is a control character. -/
theorem isPrintable_escapeCharacter (character : Char) :
    IsPrintable (escapeCharacter character) := by
  unfold escapeCharacter
  split
  · decide
  split
  · decide
  split
  · decide
  split
  · decide
  split
  · decide
  split
  · decide
  split
  · decide
  split
  · next isControl =>
      have small : character.toNat < 32 := isControl
      have high := isPrintable_hexDigit (by omega : character.toNat / 16 < 16)
      have low := isPrintable_hexDigit (Nat.mod_lt character.toNat (by decide : 0 < 16))
      have unit : IsPrintable ['\\', 'u', '0', '0'] := by decide
      exact isPrintable_append unit
        (isPrintable_cons high (isPrintable_cons low (List.forall_mem_nil _)))
  · next notControl =>
      have large : ¬ character.toNat < 32 := notControl
      exact isPrintable_cons (Nat.not_lt.mp large) (List.forall_mem_nil _)

theorem isPrintable_writeString (text : String) (printable : IsPrintable after) :
    IsPrintable (writeString text after) := by
  have escaped : IsPrintable (text.toList.flatMap escapeCharacter) := by
    intro character member
    obtain ⟨written, -, isPart⟩ := List.mem_flatMap.mp member
    exact isPrintable_escapeCharacter written character isPart
  exact isPrintable_cons (by decide)
    (isPrintable_append escaped (isPrintable_cons (by decide) printable))

theorem isPrintable_toDigits (value : Nat) : IsPrintable (Nat.toDigits 10 value) := by
  intro character member
  have isDigit : character.isDigit :=
    Nat.isDigit_of_mem_toDigits (by decide) (by decide) member
  have fromZero : '0'.val ≤ character.val :=
    of_decide_eq_true ((Bool.and_eq_true _ _).mp isDigit).1
  have fromZero : 48 ≤ character.toNat := UInt32.le_iff_toNat_le.mp fromZero
  omega

end

/-- The value adds no control characters to the text before which it is written. -/
def WritesPrintable (value : Json) : Prop :=
  ∀ {after : List Char}, IsPrintable after → IsPrintable (value.writeCompact after)

theorem isPrintable_writeCompactItems {items : List Json}
    (each : ∀ item ∈ items, WritesPrintable item) {after : List Char}
    (printable : IsPrintable after) : IsPrintable (writeCompactItems items after) := by
  induction items with
  | nil => exact isPrintable_cons (by decide) printable
  | cons item rest ih =>
      have later := ih fun other member => each other (List.mem_cons_of_mem _ member)
      exact isPrintable_cons (by decide) (each item List.mem_cons_self later)

theorem isPrintable_writeCompactMembers {members : List (String × Json)}
    (each : ∀ member ∈ members, WritesPrintable (Prod.snd member)) {after : List Char}
    (printable : IsPrintable after) : IsPrintable (writeCompactMembers members after) := by
  induction members with
  | nil => exact isPrintable_cons (by decide) printable
  | cons member rest ih =>
      have isFirst : WritesPrintable member.2 := each member List.mem_cons_self
      have later := ih fun other isLater => each other (List.mem_cons_of_mem _ isLater)
      exact isPrintable_cons (by decide)
        (isPrintable_writeString _ (isPrintable_cons (by decide) (isFirst later)))

theorem writesPrintable (value : Json) : WritesPrintable value := by
  induction value using Json.induction with
  | null =>
      intro after printable
      exact isPrintable_append (by decide) printable
  | bool value =>
      intro after printable
      cases value with
      | true => exact isPrintable_append (by decide) printable
      | false => exact isPrintable_append (by decide) printable
  | number value =>
      intro after printable
      exact isPrintable_append (isPrintable_toDigits value) printable
  | string text =>
      intro after printable
      exact isPrintable_writeString text printable
  | array items ih =>
      intro after printable
      cases items with
      | nil => exact isPrintable_cons (by decide) (isPrintable_cons (by decide) printable)
      | cons item rest =>
          have isFirst : WritesPrintable item := ih item List.mem_cons_self
          have later := isPrintable_writeCompactItems
            (fun other member => ih other (List.mem_cons_of_mem _ member)) printable
          exact isPrintable_cons (by decide) (isFirst later)
  | object members ih =>
      intro after printable
      cases members with
      | nil => exact isPrintable_cons (by decide) (isPrintable_cons (by decide) printable)
      | cons member rest =>
          have isFirst : WritesPrintable member.2 := ih member List.mem_cons_self
          have later := isPrintable_writeCompactMembers
            (fun other isLater => ih other (List.mem_cons_of_mem _ isLater)) printable
          exact isPrintable_cons (by decide)
            (isPrintable_writeString _ (isPrintable_cons (by decide) (isFirst later)))

theorem isPrintable_render (value : Json) : IsPrintable value.render.toList := by
  rw [render, String.toList_ofList]
  exact value.writesPrintable (List.forall_mem_nil _)

end Json

namespace Outline

/-- The tokens of a value make a text that has the outline of the value and no rest. -/
theorem ofText_of_scan {text : String} {value : Json}
    (isText : JsonToken.scan text.toList = value.tokens) :
    ofText text = (value.outline, true) := by
  have read := readsBack value [] []
  rw [List.append_nil] at read
  rw [ofText, isText, read]
  rfl

theorem ofText_render (value : Json) : ofText value.render = (value.outline, true) :=
  ofText_of_scan value.scan_render

end Outline

end TemplateMarkup
