import TemplateMarkup.Glob.Reader
import TemplateMarkup.Proofs.Files.Steps
import TemplateMarkup.Proofs.Glob.Meaning

/-!
# Patterns for everything below a directory

The pattern `**/name/**` stands for all that is below a directory of the name, however deep.  It matches
a path if some segment of the path but the last is the name.  Patterns go over bytes and paths consist of
characters; the two fit together because the byte of a slash is part of no other character.
-/

namespace TemplateMarkup

namespace Glob

/-- The bytes of a text. -/
def encode (text : List Char) : List UInt8 := text.flatMap String.utf8EncodeChar

theorem eq_slash_of_mem {character : Char} (member : 0x2F ∈ String.utf8EncodeChar character) :
    character = '/' := by
  have isByte {number : Nat} (same : (0x2F : UInt8) = UInt8.ofNat number) : number % 256 = 47 := by
    simpa using (congrArg UInt8.toNat same).symm
  unfold String.utf8EncodeChar at member
  dsimp only at member
  split at member
  · next short =>
      have isSlash := isByte (List.mem_singleton.mp member)
      have same : character.val.toNat = '/'.val.toNat := by
        rw [Nat.mod_eq_of_lt (by omega)] at isSlash
        exact isSlash
      exact Char.ext (UInt32.toNat_inj.mp same)
  · -- All bytes of a longer character are at least 128.
    exfalso
    split at member
    · simp only [List.mem_cons, List.not_mem_nil, or_false] at member
      rcases member with same | same <;> exact absurd (isByte same) (by omega)
    · split at member
      · simp only [List.mem_cons, List.not_mem_nil, or_false] at member
        rcases member with same | same | same <;> exact absurd (isByte same) (by omega)
      · simp only [List.mem_cons, List.not_mem_nil, or_false] at member
        rcases member with same | same | same | same <;> exact absurd (isByte same) (by omega)

theorem encode_cons (character : Char) (rest : List Char) :
    encode (character :: rest) = String.utf8EncodeChar character ++ encode rest :=
  rfl

theorem encode_append (first second : List Char) :
    encode (first ++ second) = encode first ++ encode second :=
  List.flatMap_append

theorem encode_slash (rest : List Char) : encode ('/' :: rest) = 0x2F :: encode rest :=
  rfl

/-- Where the byte of a slash is, there is a slash. -/
theorem exists_of_encode_eq {text : List Char} {front back : List UInt8}
    (isText : encode text = front ++ 0x2F :: back) : ∃ before after,
      text = before ++ '/' :: after ∧ encode before = front ∧ encode after = back := by
  induction text generalizing front with
  | nil => simp [encode] at isText
  | cons character rest ih =>
      rw [encode_cons] at isText
      rcases List.append_eq_append_iff.mp isText with
        ⟨later, rfl, isRest⟩ | ⟨later, isFirst, isLater⟩
      · obtain ⟨before, after, rfl, rfl, rfl⟩ := ih isRest
        exact ⟨character :: before, after, rfl, rfl, rfl⟩
      · cases later with
        | nil =>
            obtain ⟨before, after, rfl, isEmpty, rfl⟩ := @ih [] isLater.symm
            refine ⟨character :: before, after, rfl, ?_, rfl⟩
            rw [encode_cons, isEmpty, isFirst, List.append_nil, List.append_nil]
        | cons byte later =>
            obtain ⟨rfl, isBack⟩ := List.cons.inj isLater
            have isSlash := eq_slash_of_mem (isFirst ▸ List.mem_append_cons_self)
            subst isSlash
            have alone : String.utf8EncodeChar '/' = [0x2F] := by decide
            rw [alone] at isFirst
            have lengths := congrArg List.length isFirst
            simp only [List.length_append, List.length_cons, List.length_nil] at lengths
            obtain rfl := List.eq_nil_of_length_eq_zero (l := front) (by omega)
            obtain rfl := List.eq_nil_of_length_eq_zero (l := later) (by omega)
            exact ⟨[], rest, rfl, rfl, isBack.symm⟩

theorem encode_injective {first second : List Char} (same : encode first = encode second) :
    first = second := by
  have sameBytes : first.utf8Encode = second.utf8Encode := congrArg List.toByteArray same
  have sameText := congrArg ByteArray.utf8Decode? sameBytes
  rw [List.utf8Decode?_utf8Encode, List.utf8Decode?_utf8Encode] at sameText
  simpa using sameText

/-- What is before a segment of a text: nothing, or a text that ends with a slash. -/
def EndsSegments {α : Type} (slash : α) (front : List α) : Prop :=
  front = [] ∨ ∃ outer, front = outer ++ [slash]

/-- A segment with a slash after it is one but the last. -/
theorem mem_dropLast_splitOn {text word : List Char} (noSlash : '/' ∉ word) :
    word ∈ (text.splitOn '/').dropLast ↔
      ∃ front back, text = front ++ word ++ '/' :: back ∧ EndsSegments '/' front := by
  constructor
  · induction length : text.length using Nat.strong_induction_on generalizing text with
    | _ size ih =>
        intro isSegment
        by_cases hasSlash : '/' ∈ text
        · obtain ⟨first, rest, rfl, isFirst⟩ := List.eq_append_cons_of_mem hasSlash
          rw [List.splitOn_append_cons_self_of_not_mem isFirst,
            List.dropLast_cons_of_ne_nil (List.splitOn_ne_nil _ _)] at isSegment
          rcases List.mem_cons.mp isSegment with rfl | isLater
          · exact ⟨[], rest, rfl, .inl rfl⟩
          · have shorter : rest.length < size := by
              rw [← length, List.length_append, List.length_cons]
              omega
            obtain ⟨front, back, rfl, ends⟩ := ih _ shorter rfl isLater
            refine ⟨first ++ '/' :: front, back, by simp, .inr ?_⟩
            rcases ends with rfl | ⟨outer, rfl⟩
            · exact ⟨first, rfl⟩
            · exact ⟨first ++ '/' :: outer, by simp⟩
        · rw [List.splitOn_eq_singleton hasSlash] at isSegment
          cases isSegment
  · rintro ⟨front, back, rfl, rfl | ⟨outer, rfl⟩⟩
    · rw [List.nil_append, List.splitOn_append_cons_self_of_not_mem noSlash,
        List.dropLast_cons_of_ne_nil (List.splitOn_ne_nil _ _)]
      exact List.mem_cons_self
    · rw [List.append_assoc, List.append_assoc, List.singleton_append, List.splitOn_append_cons_self,
        List.splitOn_append_cons_self_of_not_mem noSlash, List.dropLast_append_cons,
        List.dropLast_cons_of_ne_nil (List.splitOn_ne_nil _ _)]
      exact List.mem_append_right _ List.mem_cons_self

/-- The pattern `**/name/**`. -/
def below (name : String) : Glob :=
  ⟨.leadingDirectories :: (name.toList.map .literal ++ [.belowDirectory])⟩

/-- The character stands for itself in a pattern. -/
def IsPlain (character : Char) : Prop := character ∉ ['[', '\\', '*', '?', '\x7b', '\x7d']

instance (character : Char) : Decidable (IsPlain character) :=
  inferInstanceAs (Decidable (character ∉ _))

theorem lexemes?_of_plain {text : List Char}
    (isText : ∀ character ∈ text, character ≠ '[' ∧ character ≠ '\\') :
    lexemes? .outside text = some (text.map .plain) := by
  induction text with
  | nil => rfl
  | cons character rest ih =>
      obtain ⟨isFirst, isText⟩ := List.forall_mem_cons.mp isText
      rw [lexemes?.eq_def]
      simp [isFirst, ih isText]

theorem tokens?_of_plain {previous : Option Char} {taken : List GlobToken} {character : Char}
    {rest : List Lexeme} (isPlain : IsPlain character) :
    tokens? previous taken [] (.plain character :: rest) =
      tokens? (some character) (.literal character :: taken) [] rest := by
  have noStar : character ≠ '*' := by
    rintro rfl
    exact isPlain (by decide)
  rw [tokens?.eq_def]
  split
  · next ends => cases ends
  · next escaped => cases escaped
  · next oneOf => cases oneOf
  · next twoStars =>
      cases twoStars
      exact absurd rfl noStar
  · next twoStars =>
      cases twoStars
      exact absurd rfl noStar
  · next isFirst =>
      cases isFirst
      split
      all_goals first | exact absurd (by decide) isPlain | contradiction | rfl

/-- A name is read character by character, and then the two stars take its slash along. -/
theorem tokens?_name {name : List Char} {previous : Option Char} {taken : List GlobToken}
    (isName : ∀ character ∈ name, IsPlain character) :
    tokens? previous taken [] ((name ++ ['/', '*', '*']).map .plain) =
      some (taken.reverse ++ (name.map .literal ++ [.belowDirectory])) := by
  induction name generalizing previous taken with
  | nil =>
      rw [List.nil_append, List.map_cons, tokens?_of_plain (by decide)]
      simp [tokens?, takeStars, afterStars]
  | cons character rest ih =>
      obtain ⟨isPlain, isName⟩ := List.forall_mem_cons.mp isName
      rw [List.cons_append, List.map_cons, tokens?_of_plain isPlain, ih isName]
      simp

theorem levelsOfAll_name (name : List Char) :
    GlobToken.levelsOfAll (name.map .literal ++ [.belowDirectory]) = 1 := by
  induction name with
  | nil => rfl
  | cons character rest ih =>
      rw [List.map_cons, List.cons_append, GlobToken.levelsOfAll, ih, GlobToken.levels]
      rfl

/-- A name of characters that stand for themselves can be written into the pattern. -/
theorem read?_below {name : String} (isName : ∀ character ∈ name.toList, IsPlain character) :
    read? ("**/" ++ name ++ "/**") = some (below name) := by
  have text : ("**/" ++ name ++ "/**").toList =
      '*' :: '*' :: '/' :: (name.toList ++ ['/', '*', '*']) := by
    simp
  have isText : ∀ character ∈ '*' :: '*' :: '/' :: (name.toList ++ ['/', '*', '*']),
      character ≠ '[' ∧ character ≠ '\\' := by
    intro character member
    simp only [List.mem_cons, List.mem_append, List.not_mem_nil, or_false] at member
    rcases member with rfl | rfl | rfl | inName | rfl | rfl | rfl
    case inr.inr.inr.inl =>
      have isPlain := isName character inName
      simp only [IsPlain, List.mem_cons, not_or] at isPlain
      exact ⟨isPlain.1, isPlain.2.1⟩
    all_goals decide
  have tokens : tokens? none [] [] (('*' :: '*' :: '/' :: (name.toList ++ ['/', '*', '*'])).map
      .plain) = some (below name).tokens := by
    rw [List.map_cons, List.map_cons, List.map_cons, tokens?]
    exact tokens?_name isName
  have levels : (below name).levels ≤ mostLevels := by
    rw [levels, below, GlobToken.levelsOfAll, levelsOfAll_name, GlobToken.levels]
    decide
  rw [read?, text, lexemes?_of_plain isText, Option.bind_eq_bind, Option.bind_some, tokens,
    Option.bind_eq_bind, Option.bind_some]
  exact if_pos levels

theorem coversAll_append {first second : List GlobToken} {bytes : List UInt8} :
    GlobToken.CoversAll (first ++ second) bytes ↔ ∃ front back,
      bytes = front ++ back ∧ GlobToken.CoversAll first front ∧ GlobToken.CoversAll second back := by
  induction first generalizing bytes with
  | nil => simp [GlobToken.CoversAll]
  | cons token rest ih =>
      simp only [List.cons_append, GlobToken.CoversAll, ih]
      constructor
      · rintro ⟨start, _, rfl, covers, front, back, rfl, coversRest, coversSecond⟩
        exact ⟨start ++ front, back, by simp, ⟨start, front, rfl, covers, coversRest⟩,
          coversSecond⟩
      · rintro ⟨_, back, rfl, ⟨start, front, rfl, covers, coversRest⟩, coversSecond⟩
        exact ⟨start, front ++ back, by simp, covers, front, back, rfl, coversRest, coversSecond⟩

theorem coversAll_literals {word : List Char} {bytes : List UInt8} :
    GlobToken.CoversAll (word.map .literal) bytes ↔ bytes = encode word := by
  induction word generalizing bytes with
  | nil => rfl
  | cons character rest ih => simp [GlobToken.CoversAll, GlobToken.Covers, ih, encode_cons]

theorem coversAll_below {name : String} {bytes : List UInt8} :
    GlobToken.CoversAll (below name).tokens bytes ↔ ∃ front back,
      bytes = front ++ encode name.toList ++ 0x2F :: back ∧ EndsSegments 0x2F front := by
  simp only [below, GlobToken.CoversAll, GlobToken.Covers, coversAll_append, coversAll_literals]
  constructor
  · rintro ⟨front, _, rfl, ends, _, _, rfl, rfl, _, _, rfl, ⟨back, rfl⟩, rfl⟩
    exact ⟨front, back, by simp, ends⟩
  · rintro ⟨front, back, rfl, ends⟩
    exact ⟨front, encode name.toList ++ 0x2F :: back, by simp, ends, encode name.toList,
      0x2F :: back, rfl, rfl, 0x2F :: back, [], by simp, ⟨back, rfl⟩, rfl⟩

/-- Whether a file has a name does not matter to the pattern. -/
theorem needsFileName_below (name : String) : needsFileName (below name).tokens = false := by
  have noFileName : isFileName (below name).tokens = false := by
    simp [below, isFileName, GlobToken.isLiteral]
  have noExtension : isExtension (below name).tokens = false := by
    cases text : name.toList <;> simp [below, isExtension, afterDirectories, text]
  have noEnding : hasExtension (below name).tokens = false := by
    simp [below, hasExtension, GlobToken.isLiteral]
  rw [needsFileName, noFileName, noExtension, noEnding]
  rfl

/-- The pattern matches a path if a segment but the last is the name. -/
theorem isMatch_below {name : String} (noSlash : '/' ∉ name.toList) (text : String) :
    (below name).isMatch text ↔ name ∈ (Path.segments ⟨text⟩).dropLast := by
  have isSegment : name ∈ (Path.segments ⟨text⟩).dropLast ↔
      name.toList ∈ (text.toList.splitOn '/').dropLast := by
    rw [Path.segments, Path.splitAtSlashes_eq_splitOn, ← List.map_dropLast]
    constructor
    · intro member
      obtain ⟨segment, isSegment, rfl⟩ := List.mem_map.mp member
      rwa [String.toList_ofList]
    · intro member
      exact List.mem_map.mpr ⟨_, member, String.ofList_toList⟩
  have notAlone : (below name).tokens ≠ [.leadingDirectories] := by simp [below]
  rw [isSegment, mem_dropLast_splitOn noSlash, isMatch_iff notAlone (needsFileName_below name),
    coversAll_below]
  constructor
  · rintro ⟨front, back, isText, ends⟩
    obtain ⟨before, after, text, isBefore, -⟩ := exists_of_encode_eq isText
    rcases ends with rfl | ⟨outer, rfl⟩
    · obtain rfl := encode_injective isBefore
      exact ⟨[], after, text, .inl rfl⟩
    · rw [List.append_assoc, List.singleton_append] at isBefore
      obtain ⟨start, last, rfl, -, isLast⟩ := exists_of_encode_eq isBefore
      obtain rfl := encode_injective isLast
      exact ⟨start ++ ['/'], after, by simp [text], .inr ⟨start, rfl⟩⟩
  · rintro ⟨front, back, isText, ends⟩
    refine ⟨encode front, encode back, ?_, ?_⟩
    · show encode text.toList = _
      rw [isText, encode_append, encode_append, encode_slash]
    · rcases ends with rfl | ⟨outer, rfl⟩
      · exact .inl rfl
      · exact .inr ⟨encode outer, by rw [encode_append, encode_slash]; rfl⟩

end Glob

end TemplateMarkup
