import TemplateMarkup.Proofs.Text.Trimming
import TemplateMarkup.Source.Position

/-!
# The written form of a position

Which texts write a position: two numbers with a colon between them.  Such a text is read as what it
writes, and no other text is read.  A position whose coordinates fit into a 32-bit word is read back
from its own written form.
-/

namespace TemplateMarkup

theorem isBlank_of_isDigit {character : Char} (isDigit : character.isDigit) :
    isBlank character = false := by
  rw [Bool.eq_false_iff]
  intro blank
  simp only [Char.isDigit, Bool.and_eq_true, decide_eq_true_eq, UInt32.le_iff_toNat_le] at isDigit
  simp only [isBlank, Bool.or_eq_true, Bool.and_eq_true, beq_iff_eq, decide_eq_true_eq] at blank
  have low : 48 ≤ character.toNat := isDigit.1
  have high : character.toNat ≤ 57 := isDigit.2
  omega

namespace Position

/-- At most one plus sign and one or more decimal digits, whose value can be a coordinate. -/
structure IsNumeral (sign digits : List Char) (value : Nat) : Prop where
  isSign : sign = [] ∨ sign = ['+']
  nonempty : digits ≠ []
  areDigits : ∀ digit ∈ digits, digit.isDigit
  isValue : Nat.ofDigitChars 10 digits 0 = value
  positive : 0 < value
  fits : value ≤ largestCoordinate

/-- A numeral with blanks on either side. -/
def WritesCoordinate (part : List Char) (value : Nat) : Prop :=
  ∃ before sign digits after, part = before ++ (sign ++ digits ++ after) ∧
    (∀ character ∈ before, isBlank character) ∧ (∀ character ∈ after, isBlank character) ∧
      IsNumeral sign digits value

theorem readCoordinate?_of_unsigned {text : List Char} (noSign : text.head? ≠ some '+') :
    readCoordinate? text =
      if !text.isEmpty && text.all Char.isDigit && 0 < Nat.ofDigitChars 10 text 0 &&
          Nat.ofDigitChars 10 text 0 ≤ largestCoordinate then
        some (Nat.ofDigitChars 10 text 0)
      else none := by
  unfold readCoordinate?
  split
  · exact absurd rfl noSign
  · rfl

theorem isNumeral_iff {sign digits : List Char} {value : Nat} (isSign : sign = [] ∨ sign = ['+']) :
    IsNumeral sign digits value ↔
      (if !digits.isEmpty && digits.all Char.isDigit && 0 < Nat.ofDigitChars 10 digits 0 &&
          Nat.ofDigitChars 10 digits 0 ≤ largestCoordinate then
        some (Nat.ofDigitChars 10 digits 0)
      else none) = some value := by
  constructor
  · rintro ⟨-, nonempty, areDigits, rfl, positive, fits⟩
    simp [nonempty, positive, fits, List.all_eq_true.mpr areDigits]
  · intro read
    split at read
    · next accepted =>
        simp only [Bool.and_eq_true, Bool.not_eq_true', List.isEmpty_eq_false_iff,
          List.all_eq_true, decide_eq_true_eq] at accepted
        obtain ⟨⟨⟨nonempty, areDigits⟩, positive⟩, fits⟩ := accepted
        obtain rfl := Option.some.inj read
        exact ⟨isSign, nonempty, areDigits, rfl, positive, fits⟩
    · cases read

theorem IsNumeral.head?_ne_plus {sign digits : List Char} {value : Nat}
    (numeral : IsNumeral sign digits value) : digits.head? ≠ some '+' := by
  intro starts
  exact absurd (numeral.areDigits _ (List.mem_of_head? starts)) (by decide)

theorem readCoordinate?_eq_some_iff {text : List Char} {value : Nat} :
    readCoordinate? text = some value ↔
      ∃ sign digits, text = sign ++ digits ∧ IsNumeral sign digits value := by
  constructor
  · intro read
    by_cases signed : text.head? = some '+'
    · obtain ⟨digits, rfl⟩ := List.head?_eq_some_iff.mp signed
      exact ⟨['+'], digits, rfl, (isNumeral_iff (.inr rfl)).mpr read⟩
    · rw [readCoordinate?_of_unsigned signed] at read
      exact ⟨[], text, rfl, (isNumeral_iff (.inl rfl)).mpr read⟩
  · rintro ⟨sign, digits, rfl, numeral⟩
    have read := (isNumeral_iff numeral.isSign).mp numeral
    rcases numeral.isSign with rfl | rfl
    · rwa [List.nil_append, readCoordinate?_of_unsigned numeral.head?_ne_plus]
    · exact read

/-- Blanks are no part of a numeral. -/
theorem IsNumeral.trimEnds_eq {sign digits before after : List Char} {value : Nat}
    (numeral : IsNumeral sign digits value) (allBefore : ∀ character ∈ before, isBlank character)
    (allAfter : ∀ character ∈ after, isBlank character) :
    trimEnds isBlank (before ++ (sign ++ digits ++ after)) = sign ++ digits := by
  have visible : ∀ character ∈ sign ++ digits, isBlank character = false := by
    intro character member
    rcases List.mem_append.mp member with inSign | inDigits
    · rcases numeral.isSign with rfl | rfl
      · cases inSign
      · rw [List.mem_singleton.mp inSign]
        decide
    · exact isBlank_of_isDigit (numeral.areDigits character inDigits)
  refine trimEnds_append_append allBefore allAfter ?_ ?_
  · rw [Option.any_eq_false]
    exact fun character isFirst => visible character (List.mem_of_head? isFirst)
  · rw [Option.any_eq_false]
    exact fun character isLast => visible character (List.mem_of_getLast? isLast)

theorem readCoordinate?_trimEnds_iff {part : List Char} {value : Nat} :
    readCoordinate? (trimEnds isBlank part) = some value ↔ WritesCoordinate part value := by
  rw [readCoordinate?_eq_some_iff]
  constructor
  · rintro ⟨sign, digits, isCore, numeral⟩
    obtain ⟨before, after, whole, allBefore, allAfter⟩ := exists_eq_append_trimEnds isBlank part
    rw [isCore] at whole
    exact ⟨before, sign, digits, after, whole, allBefore, allAfter, numeral⟩
  · rintro ⟨before, sign, digits, after, rfl, allBefore, allAfter, numeral⟩
    exact ⟨sign, digits, numeral.trimEnds_eq allBefore allAfter, numeral⟩

theorem WritesCoordinate.bounds {part : List Char} {value : Nat}
    (writes : WritesCoordinate part value) : 0 < value ∧ value ≤ largestCoordinate := by
  obtain ⟨_, _, _, _, -, -, -, numeral⟩ := writes
  exact ⟨numeral.positive, numeral.fits⟩

/-- The text has a colon, what is before the first one writes the line, and what is after it writes the
column. -/
def IsWrittenAs (position : Position) (text : String) : Prop :=
  ∃ line column, text.toList = line ++ ':' :: column ∧ ':' ∉ line ∧
    WritesCoordinate line position.line ∧ WritesCoordinate column position.column

theorem read?_of_split {text : String} {line column : List Char}
    (split : text.toList = line ++ ':' :: column) (isFirst : ':' ∉ line) :
    read? text = do
      let line ← readCoordinate? (trimEnds isBlank line)
      let column ← readCoordinate? (trimEnds isBlank column)
      return ⟨line, column⟩ := by
  have noColon : ∀ character ∈ line, (character != ':') = true := by
    intro character member
    rw [bne_iff_ne]
    exact ne_of_mem_of_not_mem member isFirst
  have onColon : (':' != ':') = false := by decide
  unfold read?
  rw [split, List.takeWhile_append_of_pos noColon, List.dropWhile_append_of_pos noColon,
    List.takeWhile_cons, List.dropWhile_cons, onColon, if_neg Bool.false_ne_true,
    if_neg Bool.false_ne_true, List.append_nil]

theorem exists_split_of_read? {text : String} {position : Position}
    (read : read? text = some position) :
    ∃ line column, text.toList = line ++ ':' :: column ∧ ':' ∉ line := by
  have whole := List.takeWhile_append_dropWhile (p := (· != ':')) (l := text.toList)
  unfold read? at read
  simp only at read
  split at read
  · cases read
  · next colon column isRest =>
      have isColon : colon = ':' := eq_of_dropWhile_ne_eq_cons isRest
      rw [isRest, isColon] at whole
      refine ⟨_, column, whole.symm, fun member => ?_⟩
      exact absurd (List.mem_takeWhile_imp member) (by decide)

/-- A text is read as a position exactly if it writes that position. -/
theorem read?_eq_some_iff {text : String} {position : Position} :
    read? text = some position ↔ position.IsWrittenAs text := by
  have parts {line column : List Char} (split : text.toList = line ++ ':' :: column)
      (isFirst : ':' ∉ line) : read? text = some position ↔
        WritesCoordinate line position.line ∧ WritesCoordinate column position.column := by
    rw [read?_of_split split isFirst, ← readCoordinate?_trimEnds_iff, ← readCoordinate?_trimEnds_iff]
    cases position
    cases readCoordinate? (trimEnds isBlank line) <;>
      cases readCoordinate? (trimEnds isBlank column) <;> simp
  constructor
  · intro read
    obtain ⟨line, column, split, isFirst⟩ := exists_split_of_read? read
    exact ⟨line, column, split, isFirst, (parts split isFirst).mp read⟩
  · rintro ⟨line, column, split, isFirst, writes⟩
    exact (parts split isFirst).mpr writes

/-- Both coordinates can be read. -/
def IsReadable (position : Position) : Prop :=
  (0 < position.line ∧ position.line ≤ largestCoordinate) ∧
    0 < position.column ∧ position.column ≤ largestCoordinate

instance (position : Position) : Decidable position.IsReadable := instDecidableAnd

theorem writesCoordinate_toDigits {value : Nat} (positive : 0 < value)
    (fits : value ≤ largestCoordinate) : WritesCoordinate (Nat.toDigits 10 value) value := by
  refine ⟨[], [], Nat.toDigits 10 value, [], (List.append_nil _).symm, nofun, nofun, {
    isSign := .inl rfl
    nonempty := Nat.toDigits_ne_nil
    areDigits := fun _ member => Nat.isDigit_of_mem_toDigits (by decide) (by decide) member
    isValue := Nat.ofDigitChars_ten_toDigits
    positive
    fits }⟩

theorem isWrittenAs_render {position : Position} (readable : position.IsReadable) :
    position.IsWrittenAs position.render := by
  obtain ⟨⟨linePositive, lineFits⟩, columnPositive, columnFits⟩ := readable
  refine ⟨Nat.toDigits 10 position.line, Nat.toDigits 10 position.column, ?_, fun member => ?_,
    writesCoordinate_toDigits linePositive lineFits,
    writesCoordinate_toDigits columnPositive columnFits⟩
  · simp [render]
  · exact absurd (Nat.isDigit_of_mem_toDigits (by decide) (by decide) member) (by decide)

theorem read?_render {position : Position} (readable : position.IsReadable) :
    read? position.render = some position :=
  read?_eq_some_iff.mpr (isWrittenAs_render readable)

/-- Whatever text a position is read from, its coordinates are in range. -/
theorem isReadable_of_read? {text : String} {position : Position}
    (read : read? text = some position) : position.IsReadable := by
  obtain ⟨line, column, -, -, isLine, isColumn⟩ := read?_eq_some_iff.mp read
  exact ⟨isLine.bounds, isColumn.bounds⟩

theorem parse_eq_ok_iff {text : String} {position : Position} :
    parse text = .ok position ↔ position.IsWrittenAs text := by
  rw [← read?_eq_some_iff, parse]
  cases read? text <;> simp

theorem parse_eq_error_iff {text message : String} :
    parse text = .error message ↔
      (∀ position : Position, ¬ position.IsWrittenAs text) ∧
        message = "invalid position \"" ++ text ++ "\", expected line:column" := by
  simp only [← read?_eq_some_iff, parse]
  cases read? text with
  | none =>
      constructor
      · intro failed
        exact ⟨nofun, (Except.error.inj failed).symm⟩
      · rintro ⟨-, rfl⟩
        rfl
  | some position =>
      constructor
      · exact nofun
      · rintro ⟨refused, -⟩
        exact absurd rfl (refused position)

/-- A text is accepted exactly if it writes a position, and is quoted as a whole otherwise.  A position
with coordinates in range is read back from its written form, and so is every position that has been
read. -/
theorem parse_writtenForm :
    (∀ (text : String) (position : Position),
      parse text = .ok position ↔ position.IsWrittenAs text) ∧
    (∀ text message : String, parse text = .error message ↔
      (∀ position : Position, ¬ position.IsWrittenAs text) ∧
        message = "invalid position \"" ++ text ++ "\", expected line:column") ∧
    (∀ position : Position, position.IsReadable → parse position.render = .ok position) ∧
    ∀ (text : String) (position : Position),
      parse text = .ok position → parse position.render = .ok position := by
  have readsBack (position : Position) (readable : position.IsReadable) :
      parse position.render = .ok position := parse_eq_ok_iff.mpr (isWrittenAs_render readable)
  refine ⟨fun _ _ => parse_eq_ok_iff, fun _ _ => parse_eq_error_iff, readsBack,
    fun text position accepted => readsBack position ?_⟩
  exact isReadable_of_read? (read?_eq_some_iff.mpr (parse_eq_ok_iff.mp accepted))

/-- Blanks, a plus sign and leading zeros are read and not written, and the largest line is. -/
theorem parse_writtenForm_padded :
    parse "\u00a0+4294967295 :\t0017" = .ok ⟨4294967295, 17⟩ ∧
      parse (render ⟨4294967295, 17⟩) = .ok ⟨4294967295, 17⟩ ∧
      IsReadable ⟨1, 4294967295⟩ ∧ parse (render ⟨1, 4294967295⟩) = .ok ⟨1, 4294967295⟩ := by
  have accepted : parse "\u00a0+4294967295 :\t0017" = .ok ⟨4294967295, 17⟩ := by rfl
  have readable : IsReadable ⟨1, 4294967295⟩ := by decide
  exact ⟨accepted, parse_writtenForm.2.2.2 _ _ accepted, readable,
    parse_writtenForm.2.2.1 _ readable⟩

end Position

end TemplateMarkup
