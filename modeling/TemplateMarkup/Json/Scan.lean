import TemplateMarkup.Json.Token

/-!
# Scanning JSON

A text is split into tokens from left to right.  Reading a token leaves less of the text, so the scan
comes to an end.
-/

namespace TemplateMarkup

namespace JsonToken

theorem readPieces?_shorter {taken : List StringPiece} {text : List Char}
    {pieces : List StringPiece} {rest : List Char}
    (read : readPieces? taken text = some (pieces, rest)) : rest.length < text.length := by
  fun_induction readPieces? taken text with
  | case1 => exact absurd read (by simp)
  | case2 taken later =>
      simp only [Option.some.injEq, Prod.mk.injEq] at read
      rw [← read.2]
      exact Nat.lt_succ_self _
  | case3 => exact absurd read (by simp)
  | case4 _ _ _ _ _ _ _ _ ih =>
      have shorter := ih read
      simp only [List.length_cons]
      omega
  | case5 => exact absurd read (by simp)
  | case6 _ _ _ _ _ _ ih =>
      have shorter := ih read
      simp only [List.length_cons]
      omega
  | case7 => exact absurd read (by simp)
  | case8 _ _ _ _ _ _ _ ih =>
      have shorter := ih read
      simp only [List.length_cons]
      omega

theorem readString?_shorter {text rest : List Char} {token : JsonToken}
    (read : readString? text = some (token, rest)) : rest.length < text.length := by
  unfold readString? at read
  split at read
  · exact absurd read (by simp)
  · next found =>
      simp only [Option.some.injEq, Prod.mk.injEq] at read
      exact read.2 ▸ readPieces?_shorter found

theorem dropSign_length_le (signs text : List Char) :
    (dropSign signs text).length ≤ text.length := by
  unfold dropSign
  split
  · simp
  · exact Nat.le_refl _

theorem readDigits?_shorter {text digits rest : List Char}
    (read : readDigits? text = some (digits, rest)) : rest.length < text.length := by
  unfold readDigits? at read
  simp only at read
  split at read
  · exact absurd read (by simp)
  · next nonempty =>
      simp only [Option.some.injEq, Prod.mk.injEq] at read
      have whole : text.takeWhile Char.isDigit ++ text.dropWhile Char.isDigit = text :=
        List.takeWhile_append_dropWhile
      have lengths := congrArg List.length whole
      have positive : 0 < (text.takeWhile Char.isDigit).length := by
        rw [List.length_pos_iff]
        simpa using nonempty
      rw [List.length_append] at lengths
      rw [← read.2]
      omega

theorem readInteger?_shorter {text digits rest : List Char}
    (read : readInteger? text = some (digits, rest)) : rest.length < text.length := by
  unfold readInteger? at read
  rw [Option.filter_eq_some_iff] at read
  exact readDigits?_shorter read.1

theorem readFraction?_length_le {text digits rest : List Char}
    (read : readFraction? text = some (digits, rest)) : rest.length ≤ text.length := by
  unfold readFraction? at read
  split at read
  · exact Nat.le_succ_of_le (Nat.le_of_lt (readDigits?_shorter read))
  · simp only [Option.some.injEq, Prod.mk.injEq] at read
    exact read.2 ▸ Nat.le_refl _

theorem readExponent?_length_le {text rest : List Char} {exponent : Option Int}
    (read : readExponent? text = some (exponent, rest)) : rest.length ≤ text.length := by
  unfold readExponent? at read
  split at read
  · rw [Option.map_eq_some_iff] at read
    obtain ⟨⟨digits, later⟩, isRead, isRest⟩ := read
    simp only [Prod.mk.injEq] at isRest
    rw [← isRest.2]
    have shorter := readDigits?_shorter isRead
    have signed := dropSign_length_le ['-', '+'] text.tail
    have tail : text.tail.length ≤ text.length := by simp
    omega
  · simp only [Option.some.injEq, Prod.mk.injEq] at read
    exact read.2 ▸ Nat.le_refl _

theorem readNumber?_shorter {text rest : List Char} {token : JsonToken}
    (read : readNumber? text = some (token, rest)) : rest.length < text.length := by
  unfold readNumber? at read
  split at read
  · exact absurd read (by simp)
  · next isInteger =>
      split at read
      · exact absurd read (by simp)
      · next isFraction =>
          split at read
          · exact absurd read (by simp)
          · next isExponent =>
              simp only [Option.some.injEq, Prod.mk.injEq] at read
              have integer := readInteger?_shorter isInteger
              have fraction := readFraction?_length_le isFraction
              have exponent := readExponent?_length_le isExponent
              have signed := dropSign_length_le ['-'] text
              rw [← read.2]
              omega

theorem afterWord?_length_le {word text rest : List Char}
    (read : afterWord? word text = some rest) : rest.length ≤ text.length := by
  unfold afterWord? at read
  split at read
  · simp only [Option.some.injEq] at read
    rw [← read, List.length_drop]
    omega
  · exact absurd read (by simp)

theorem read?_shorter {text rest : List Char} {token : JsonToken}
    (read : read? text = some (token, rest)) : rest.length < text.length := by
  unfold read? at read
  split at read
  · exact absurd read (by simp)
  case h_8 => exact Nat.lt_succ_of_lt (readString?_shorter read)
  case h_9 | h_10 | h_11 =>
    simp only [Option.map_eq_some_iff, Prod.mk.injEq] at read
    obtain ⟨later, isLater, _, isRest⟩ := read
    exact Nat.lt_succ_of_le (isRest ▸ afterWord?_length_le isLater)
  case h_12 => exact readNumber?_shorter read
  all_goals
    simp only [Option.some.injEq, Prod.mk.injEq] at read
    exact read.2 ▸ Nat.lt_succ_self _

def scan (text : List Char) : List JsonToken :=
  match text with
  | [] => []
  | character :: rest =>
      if isSpace character then scan rest
      else
        match _ : read? (character :: rest) with
        | none => [.invalid]
        | some (token, later) => token :: scan later
termination_by text.length
decreasing_by
  · exact Nat.lt_succ_self _
  · exact read?_shorter (by assumption)

end JsonToken

end TemplateMarkup
