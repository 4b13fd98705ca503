import TemplateMarkup.Json.Scan
import TemplateMarkup.Json.Writer

/-!
# Tokens of a written value

Splitting the text of a value into tokens gives back the tokens of which the text was made, and then
the tokens of whatever stands after it.  Strings are read by undoing one escape at a time.  A number
ends where no digit, fraction or exponent can go on, and what stands after a number inside a container
is always a comma, a line break or a bracket.
-/

namespace TemplateMarkup

namespace JsonToken

/-- How a written character is read: as it is, or as a code unit if it is escaped by its number. -/
def pieceOf (character : Char) : StringPiece :=
  if character < ' ' ∧ character ∉ ['\x08', '\t', '\n', '\x0c', '\r'] then
    .codeUnit character.toNat
  else
    .character character

theorem codeUnit?_hexDigits (value : Nat) (small : value < 32) :
    codeUnit? '0' '0' (Json.hexDigit (value / 16)) (Json.hexDigit (value % 16)) = some value := by
  have all : ∀ value < 32, codeUnit? '0' '0' (Json.hexDigit (value / 16))
      (Json.hexDigit (value % 16)) = some value := by decide
  exact all value small

theorem readPieces?_plain {character : Char} (notQuote : character ≠ '"')
    (notBackslash : character ≠ '\\') (notControl : ¬ character < ' ')
    (taken : List StringPiece) (rest : List Char) :
    readPieces? taken (character :: rest) = readPieces? (.character character :: taken) rest := by
  rw [readPieces?.eq_def]
  split
  · contradiction
  · next same => exact absurd (List.cons.inj same).1 notQuote
  · next same => exact absurd (List.cons.inj same).1 notBackslash
  · next same => exact absurd (List.cons.inj same).1 notBackslash
  · next same =>
      obtain ⟨rfl, rfl⟩ := List.cons.inj same
      rw [if_neg (by simp [notControl, notBackslash])]

theorem readPieces?_escapeCharacter (character : Char) (taken : List StringPiece)
    (rest : List Char) :
    readPieces? taken (Json.escapeCharacter character ++ rest) =
      readPieces? (pieceOf character :: taken) rest := by
  unfold Json.escapeCharacter
  simp only [beq_iff_eq]
  split
  · next same => rw [same]; rfl
  split
  · next same => rw [same]; rfl
  split
  · next same => rw [same]; rfl
  split
  · next same => rw [same]; rfl
  split
  · next same => rw [same]; rfl
  split
  · next same => rw [same]; rfl
  split
  · next same => rw [same]; rfl
  split
  · next isControl =>
      have small : character.toNat < 32 := isControl
      have isUnit : pieceOf character = .codeUnit character.toNat :=
        if_pos ⟨isControl, by simp [*]⟩
      rw [isUnit]
      simp only [List.cons_append, List.nil_append, readPieces?,
        codeUnit?_hexDigits character.toNat small]
  · next notQuote notBackslash _ _ _ _ _ notControl =>
      have isPlain : pieceOf character = .character character :=
        if_neg fun isUnit => notControl isUnit.1
      rw [isPlain]
      exact readPieces?_plain notQuote notBackslash notControl taken rest

theorem readPieces?_escape (text rest : List Char) (taken : List StringPiece) :
    readPieces? taken (text.flatMap Json.escapeCharacter ++ '"' :: rest) =
      some (taken.reverse ++ text.map pieceOf, rest) := by
  induction text generalizing taken with
  | nil => simp [readPieces?]
  | cons character text ih =>
      rw [List.flatMap_cons, List.append_assoc, readPieces?_escapeCharacter, ih]
      simp

theorem joinPieces?_codeUnit {value : Nat} (small : value < 0xD800) (taken : List Char)
    (rest : List StringPiece) :
    joinPieces? taken (.codeUnit value :: rest) = joinPieces? (Char.ofNat value :: taken) rest := by
  have notHigh : isHighSurrogate value = false := by
    simp [isHighSurrogate]
    omega
  have notLow : isLowSurrogate value = false := by
    simp [isLowSurrogate]
    omega
  cases rest with
  | nil => simp [joinPieces?, notHigh, notLow]
  | cons piece rest => cases piece <;> simp [joinPieces?, notHigh, notLow]

theorem pieceOf_eq (character : Char) :
    (pieceOf character = .codeUnit character.toNat ∧ character.toNat < 32) ∨
      pieceOf character = .character character := by
  unfold pieceOf
  split
  · next isUnit => exact .inl ⟨rfl, isUnit.1⟩
  · exact .inr rfl

theorem joinPieces?_map_pieceOf (text taken : List Char) :
    joinPieces? taken (text.map pieceOf) = some (taken.reverse ++ text) := by
  induction text generalizing taken with
  | nil => simp [joinPieces?]
  | cons character text ih =>
      rw [List.map_cons]
      rcases pieceOf_eq character with ⟨isUnit, small⟩ | isPlain
      · rw [isUnit, joinPieces?_codeUnit (by omega), Char.ofNat_toNat, ih]
        simp
      · rw [isPlain, joinPieces?, ih]
        simp

/-- Reading a written string gives the string. -/
theorem read?_writeString (text : String) (after : List Char) :
    read? (Json.writeString text after) = some (.string (some text), after) := by
  rw [Json.writeString, read?]
  simp only [readString?, readPieces?_escape, joinPieces?_map_pieceOf, List.reverse_nil,
    List.nil_append, Option.map_some, String.ofList_toList]

/-- The token of a natural number of any size. -/
def ofNatural (value : Nat) : JsonToken :=
  .number (classifyNumber false (Nat.toDigits 10 value) [] none)

/-- The text does not go on with a number that stands before it. -/
def EndsNumber (after : List Char) : Prop :=
  ∀ character ∈ after.head?, character.isDigit = false ∧ character ∉ ['.', 'e', 'E']

theorem head?_toDigits_of_pos {value : Nat} (positive : 0 < value) :
    (Nat.toDigits 10 value).head? ≠ some '0' := by
  induction value using Nat.strongRecOn with
  | ind value ih =>
      rw [Nat.toDigits_eq_if (by decide)]
      split
      · next small =>
          have noZero : ∀ digit < 10, 0 < digit → Nat.digitChar digit ≠ '0' := by decide
          simpa using noZero value small positive
      · next large =>
          have smaller := ih (value / 10) (by omega) (by omega)
          obtain ⟨first, rest, digits⟩ :=
            List.exists_cons_of_ne_nil (Nat.toDigits_ne_nil : Nat.toDigits 10 (value / 10) ≠ [])
          rw [digits] at smaller ⊢
          exact smaller

theorem readDigits?_toDigits {value : Nat} {after : List Char} (ends : EndsNumber after) :
    readDigits? (Nat.toDigits 10 value ++ after) = some (Nat.toDigits 10 value, after) := by
  have all : ∀ digit ∈ Nat.toDigits 10 value, digit.isDigit = true := fun _ member =>
    Nat.isDigit_of_mem_toDigits (by decide) (by decide) member
  have taken : after.takeWhile Char.isDigit = [] ∧ after.dropWhile Char.isDigit = after := by
    cases after with
    | nil => exact ⟨rfl, rfl⟩
    | cons first rest =>
        have notDigit : first.isDigit = false := (ends first rfl).1
        simp [notDigit]
  have nonempty : (Nat.toDigits 10 value).isEmpty = false := by simp
  rw [readDigits?, List.takeWhile_append_of_pos all, List.dropWhile_append_of_pos all, taken.1,
    taken.2, List.append_nil]
  simp only [nonempty, Bool.false_eq_true, if_false]

theorem readInteger?_toDigits {value : Nat} {after : List Char} (ends : EndsNumber after) :
    readInteger? (Nat.toDigits 10 value ++ after) = some (Nat.toDigits 10 value, after) := by
  rw [readInteger?, readDigits?_toDigits ends, Option.filter_some]
  refine if_pos ?_
  rcases Nat.eq_zero_or_pos value with rfl | positive
  · rfl
  · simp [head?_toDigits_of_pos positive]

theorem readFraction?_of_ends {after : List Char} (ends : EndsNumber after) :
    readFraction? after = some ([], after) := by
  unfold readFraction?
  split
  · next rest => exact absurd (ends '.' rfl).2 (by simp)
  · rfl

theorem readExponent?_of_ends {after : List Char} (ends : EndsNumber after) :
    readExponent? after = some (none, after) := by
  unfold readExponent?
  refine if_neg ?_
  cases after with
  | nil => simp
  | cons first rest =>
      have noLetter := (ends first rfl).2
      simp_all

theorem read?_of_isDigit {first : Char} (isDigit : first.isDigit = true) (rest : List Char) :
    read? (first :: rest) = readNumber? (first :: rest) := by
  have other (mark : Char) (isMark : mark.isDigit = false) : first ≠ mark := by
    rintro rfl
    exact absurd isDigit (by simp [isMark])
  unfold read?
  split
  case h_1 same => cases same
  case h_12 => rfl
  all_goals
    next same => exact absurd (List.cons.inj same).1 (other _ (by decide))

/-- Reading a written number gives the number. -/
theorem read?_toDigits (value : Nat) {after : List Char} (ends : EndsNumber after) :
    read? (Nat.toDigits 10 value ++ after) = some (ofNatural value, after) := by
  obtain ⟨first, rest, digits⟩ :=
    List.exists_cons_of_ne_nil (Nat.toDigits_ne_nil : Nat.toDigits 10 value ≠ [])
  have member : first ∈ Nat.toDigits 10 value := by
    rw [digits]
    simp
  have isDigit : first.isDigit = true := Nat.isDigit_of_mem_toDigits (by decide) (by decide) member
  have notMinus : (first == '-') = false := by
    rw [beq_eq_false_iff_ne]
    rintro rfl
    exact absurd isDigit (by decide)
  have starts : Nat.toDigits 10 value ++ after = first :: (rest ++ after) := by
    rw [digits, List.cons_append]
  have noSign : dropSign ['-'] (first :: (rest ++ after)) = first :: (rest ++ after) := by
    rw [dropSign, if_neg (by simpa using notMinus)]
  rw [starts, read?_of_isDigit isDigit, readNumber?, noSign, ← starts, readInteger?_toDigits ends]
  simp only [readFraction?_of_ends ends, readExponent?_of_ends ends]
  rw [starts, List.head?_cons, Option.some_beq_some, notMinus]
  rfl

theorem scan_of_isSpace {space : Char} (isSpace : JsonToken.isSpace space = true)
    (rest : List Char) : scan (space :: rest) = scan rest := by
  rw [scan, if_pos isSpace]

theorem scan_of_read? {text rest : List Char} {token : JsonToken}
    (read : read? text = some (token, rest)) (starts : ∀ space ∈ text.head?, isSpace space = false) :
    scan text = token :: scan rest := by
  cases text with
  | nil => cases read
  | cons first later =>
      rw [scan, if_neg (by simp [starts first rfl])]
      split
      · next failed => exact absurd (failed.symm.trans read) (by simp)
      · next found =>
          obtain ⟨rfl, rfl⟩ := Prod.mk.inj (Option.some.inj (found.symm.trans read))
          rfl

theorem scan_writeString (text : String) (after : List Char) :
    scan (Json.writeString text after) = .string (some text) :: scan after :=
  scan_of_read? (read?_writeString text after) (by rintro _ ⟨⟩; rfl)

theorem scan_toDigits (value : Nat) {after : List Char} (ends : EndsNumber after) :
    scan (Nat.toDigits 10 value ++ after) = ofNatural value :: scan after := by
  refine scan_of_read? (read?_toDigits value ends) ?_
  obtain ⟨first, rest, digits⟩ :=
    List.exists_cons_of_ne_nil (Nat.toDigits_ne_nil : Nat.toDigits 10 value ≠ [])
  rw [digits, List.cons_append]
  rintro _ ⟨⟩
  have member : first ∈ Nat.toDigits 10 value := by
    rw [digits]
    simp
  have isDigit : first.isDigit = true := Nat.isDigit_of_mem_toDigits (by decide) (by decide) member
  rw [Bool.eq_false_iff]
  intro isSpace
  simp only [JsonToken.isSpace, Bool.or_eq_true, beq_iff_eq] at isSpace
  rcases isSpace with ((rfl | rfl) | rfl) | rfl <;> exact absurd isDigit (by decide)

theorem scan_replicate_space (count : Nat) (after : List Char) :
    scan (List.replicate count ' ' ++ after) = scan after := by
  induction count with
  | zero => rfl
  | succ count ih => rw [List.replicate_succ, List.cons_append, scan_of_isSpace rfl, ih]

theorem scan_writeLine (depth : Nat) (after : List Char) :
    scan (Json.writeLine depth after) = scan after := by
  rw [Json.writeLine, scan_of_isSpace rfl, scan_replicate_space]

theorem scan_writeBool (value : Bool) (after : List Char) :
    scan (Json.writeBool value after) = .bool value :: scan after := by
  have word (text : List Char) : afterWord? text (text ++ after) = some after := by
    rw [afterWord?, if_pos (List.isPrefixOf_iff_prefix.mpr (List.prefix_append _ _)),
      List.drop_left]
  cases value with
  | true =>
      refine scan_of_read? ?_ (by rintro _ ⟨⟩; rfl)
      exact congrArg (Option.map fun rest => (JsonToken.bool true, rest)) (word "rue".toList)
  | false =>
      refine scan_of_read? ?_ (by rintro _ ⟨⟩; rfl)
      exact congrArg (Option.map fun rest => (JsonToken.bool false, rest)) (word "alse".toList)

theorem scan_null (after : List Char) : scan ("null".toList ++ after) = .null :: scan after := by
  refine scan_of_read? ?_ (by rintro _ ⟨⟩; rfl)
  have word : afterWord? "ull".toList ("ull".toList ++ after) = some after := by
    rw [afterWord?, if_pos (List.isPrefixOf_iff_prefix.mpr (List.prefix_append _ _)),
      List.drop_left]
  exact congrArg (Option.map fun rest => (JsonToken.null, rest)) word

/-- A bracket, a comma or a colon is one token. -/
theorem scan_mark (mark : Char) (token : JsonToken) (after : List Char)
    (isMark : (mark, token) ∈ [('[', openArray), (']', closeArray), ('{', openObject),
      ('}', closeObject), (',', comma), (':', colon)]) :
    scan (mark :: after) = token :: scan after := by
  simp only [List.mem_cons, List.not_mem_nil, or_false, Prod.mk.injEq] at isMark
  rcases isMark with ⟨rfl, rfl⟩ | ⟨rfl, rfl⟩ | ⟨rfl, rfl⟩ | ⟨rfl, rfl⟩ | ⟨rfl, rfl⟩ | ⟨rfl, rfl⟩
  all_goals exact scan_of_read? rfl (by rintro _ ⟨⟩; rfl)

end JsonToken

namespace Json

/-- What holds of scalars, and of every container if it holds of all that is in it, holds of all
values. -/
@[elab_as_elim]
theorem induction {motive : Json → Prop} (null : motive null) (bool : ∀ value, motive (bool value))
    (number : ∀ value, motive (number value)) (string : ∀ text, motive (string text))
    (array : ∀ items, (∀ item ∈ items, motive item) → motive (array items))
    (object : ∀ members, (∀ member ∈ members, motive (Prod.snd member)) → motive (object members)) :
    ∀ value, motive value
  | .null => null
  | .bool value => bool value
  | .number value => number value
  | .string text => string text
  | .array items => array items fun item _ => induction null bool number string array object item
  | .object members => object members fun member _ =>
      induction null bool number string array object member.2
termination_by value => sizeOf value
decreasing_by
  · have smaller := List.sizeOf_lt_of_mem (by assumption)
    simp only [Json.array.sizeOf_spec]
    omega
  · have smaller := List.sizeOf_lt_of_mem (by assumption)
    have inside : sizeOf member.2 < sizeOf member := by
      obtain ⟨name, value⟩ := member
      simp only [Prod.mk.sizeOf_spec]
      omega
    simp only [Json.object.sizeOf_spec]
    omega

mutual

/-- The tokens of a value. -/
def tokens : Json → List JsonToken
  | null => [.null]
  | bool value => [.bool value]
  | number value => [.ofNatural value]
  | string text => [.string (some text)]
  | array [] => [.openArray, .closeArray]
  | array (item :: rest) => .openArray :: (item.tokens ++ itemTokens rest)
  | object [] => [.openObject, .closeObject]
  | object ((name, value) :: rest) =>
      .openObject :: .string (some name) :: .colon :: (value.tokens ++ memberTokens rest)

/-- The tokens of the items after the first one and of the end of the array. -/
def itemTokens : List Json → List JsonToken
  | [] => [.closeArray]
  | item :: rest => .comma :: (item.tokens ++ itemTokens rest)

/-- The tokens of the members after the first one and of the end of the object. -/
def memberTokens : List (String × Json) → List JsonToken
  | [] => [.closeObject]
  | (name, value) :: rest =>
      .comma :: .string (some name) :: .colon :: (value.tokens ++ memberTokens rest)

end

theorem endsNumber_writeLine (depth : Nat) (after : List Char) :
    JsonToken.EndsNumber (writeLine depth after) := by
  rintro _ ⟨⟩
  decide

theorem endsNumber_writeIndentedItems (depth : Nat) (items : List Json) (after : List Char) :
    JsonToken.EndsNumber (writeIndentedItems depth items after) := by
  cases items with
  | nil => exact endsNumber_writeLine depth _
  | cons item rest =>
      rintro _ ⟨⟩
      decide

theorem endsNumber_writeIndentedMembers (depth : Nat) (members : List (String × Json))
    (after : List Char) : JsonToken.EndsNumber (writeIndentedMembers depth members after) := by
  cases members with
  | nil => exact endsNumber_writeLine depth _
  | cons member rest =>
      rintro _ ⟨⟩
      decide

open JsonToken

/-- The text of the value is split into its tokens, wherever it stands. -/
def ScansIndented (value : Json) : Prop :=
  ∀ (depth : Nat) {after : List Char}, EndsNumber after →
    scan (value.writeIndented depth after) = value.tokens ++ scan after

theorem scan_writeIndentedItems {items : List Json} (scans : ∀ item ∈ items, ScansIndented item)
    (depth : Nat) (after : List Char) :
    scan (writeIndentedItems depth items after) = itemTokens items ++ scan after := by
  induction items with
  | nil => rw [writeIndentedItems, scan_writeLine, scan_mark ']' .closeArray _ (by simp)]; rfl
  | cons item rest ih =>
      have later := ih fun other member => scans other (by simp [member])
      have first := scans item (by simp) (depth + 1) (endsNumber_writeIndentedItems depth rest after)
      rw [writeIndentedItems, scan_mark ',' .comma _ (by simp), scan_writeLine, first, later,
        itemTokens, List.cons_append, List.append_assoc]

theorem scan_writeIndentedMembers {members : List (String × Json)}
    (scans : ∀ member ∈ members, ScansIndented (Prod.snd member)) (depth : Nat)
    (after : List Char) :
    scan (writeIndentedMembers depth members after) = memberTokens members ++ scan after := by
  induction members with
  | nil => rw [writeIndentedMembers, scan_writeLine, scan_mark '}' .closeObject _ (by simp)]; rfl
  | cons member rest ih =>
      obtain ⟨name, value⟩ := member
      have later := ih fun other member => scans other (by simp [member])
      have first : ScansIndented value := scans (name, value) (by simp)
      rw [writeIndentedMembers, scan_mark ',' .comma _ (by simp), scan_writeLine,
        scan_writeString, scan_mark ':' .colon _ (by simp), scan_of_isSpace rfl,
        first (depth + 1) (endsNumber_writeIndentedMembers depth rest after), later,
        memberTokens, List.cons_append, List.cons_append, List.cons_append, List.append_assoc]

theorem scansIndented (value : Json) : ScansIndented value := by
  induction value using Json.induction with
  | null => exact fun _ after _ => scan_null after
  | bool value => exact fun _ after _ => scan_writeBool value after
  | number value => exact fun _ _ ends => scan_toDigits value ends
  | string text => exact fun _ after _ => scan_writeString text after
  | array items ih =>
      intro depth after _
      cases items with
      | nil =>
          rw [writeIndented, scan_mark '[' .openArray _ (by simp),
            scan_mark ']' .closeArray _ (by simp)]
          rfl
      | cons item rest =>
          have first := ih item (by simp) (depth + 1) (endsNumber_writeIndentedItems depth rest after)
          have later := scan_writeIndentedItems
            (fun other member => ih other (List.mem_cons_of_mem _ member)) depth after
          rw [writeIndented, scan_mark '[' .openArray _ (by simp), scan_writeLine, first, later,
            tokens, List.cons_append, List.append_assoc]
  | object members ih =>
      intro depth after _
      cases members with
      | nil =>
          rw [writeIndented, scan_mark '{' .openObject _ (by simp),
            scan_mark '}' .closeObject _ (by simp)]
          rfl
      | cons member rest =>
          obtain ⟨name, value⟩ := member
          have first : ScansIndented value := ih (name, value) (by simp)
          have later := scan_writeIndentedMembers
            (fun other member => ih other (List.mem_cons_of_mem _ member)) depth after
          rw [writeIndented, scan_mark '{' .openObject _ (by simp), scan_writeLine,
            scan_writeString, scan_mark ':' .colon _ (by simp), scan_of_isSpace rfl,
            first (depth + 1) (endsNumber_writeIndentedMembers depth rest after), later,
            tokens, List.cons_append, List.cons_append, List.cons_append, List.append_assoc]

/-- The text of a value on many lines is made of its tokens. -/
theorem scan_renderPretty (value : Json) : scan value.renderPretty.toList = value.tokens := by
  have ends : EndsNumber [] := by rintro _ ⟨⟩
  have whole := scansIndented value 0 ends
  rw [renderPretty, String.toList_ofList, indented, whole, scan, List.append_nil]

end Json

end TemplateMarkup
