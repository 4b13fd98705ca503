import Mathlib.Data.List.TakeWhile
import TemplateMarkup.Text.Expression
import TemplateMarkup.Text.Whitespace

/-!
# Line endings of texts

The line feeds of a text may be written as they are, or each of them after a carriage return.  Both
ways of writing leave the same things to be found in a text: the words that stand in one line, the
white space at its ends, and the facts that are taken from an expression.
-/

namespace TemplateMarkup

open CharacterClass

/-- How line feeds are written: as they are, or each after a carriage return. -/
inductive LineEnding where
  | lineFeed
  | pair

namespace LineEnding

def letters : LineEnding → Char → List Char
  | lineFeed, character => [character]
  | pair, character => if character = '\n' then ['\r', '\n'] else [character]

def write (ending : LineEnding) (text : List Char) : List Char :=
  text.flatMap ending.letters

variable (ending : LineEnding)

theorem letters_of_ne {character : Char} (notLineFeed : character ≠ '\n') :
    ending.letters character = [character] := by
  cases ending with
  | lineFeed => rfl
  | pair => exact if_neg notLineFeed

theorem pair_of_letters_ne {ending : LineEnding} {character : Char}
    (notSingle : ending.letters character ≠ [character]) : ending = pair ∧ character = '\n' := by
  cases ending with
  | lineFeed => exact absurd rfl notSingle
  | pair =>
      refine ⟨rfl, ?_⟩
      by_contra notLineFeed
      exact notSingle (letters_of_ne pair notLineFeed)

@[simp]
theorem write_nil : ending.write [] = [] :=
  rfl

theorem write_cons (character : Char) (rest : List Char) :
    ending.write (character :: rest) = ending.letters character ++ ending.write rest :=
  List.flatMap_cons

theorem write_cons_of_ne {character : Char} (notLineFeed : character ≠ '\n') (rest : List Char) :
    ending.write (character :: rest) = character :: ending.write rest := by
  rw [write_cons, letters_of_ne ending notLineFeed, List.singleton_append]

theorem write_lineFeed (text : List Char) : lineFeed.write text = text :=
  List.flatMap_singleton' text

theorem pair_write_cons_lineFeed (rest : List Char) :
    pair.write ('\n' :: rest) = '\r' :: '\n' :: pair.write rest :=
  rfl

@[simp]
theorem write_append (first second : List Char) :
    ending.write (first ++ second) = ending.write first ++ ending.write second :=
  List.flatMap_append

theorem write_eq_self {text : List Char} (oneLine : '\n' ∉ text) : ending.write text = text := by
  induction text with
  | nil => rfl
  | cons character rest ih =>
      obtain ⟨first, later⟩ := List.ne_and_not_mem_of_not_mem_cons oneLine
      rw [write_cons_of_ne ending first.symm, ih later]

@[simp]
theorem write_eq_nil_iff {text : List Char} : ending.write text = [] ↔ text = [] := by
  constructor
  · intro nothing
    cases text with
    | nil => rfl
    | cons character rest =>
        by_cases lineFeed : character = '\n'
        · subst lineFeed
          cases ending <;> cases nothing
        · rw [write_cons_of_ne ending lineFeed] at nothing
          cases nothing
  · rintro rfl
    rfl

/-- Nothing that has been written starts with a line feed, if they are written in pairs. -/
theorem pair_write_ne_lineFeed_cons (text rest : List Char) : pair.write text ≠ '\n' :: rest := by
  intro equal
  cases text with
  | nil => cases equal
  | cons character later =>
      by_cases lineFeed : character = '\n'
      · rw [lineFeed, pair_write_cons_lineFeed] at equal
        exact absurd (List.cons.inj equal).1 (by decide)
      · rw [write_cons_of_ne pair lineFeed] at equal
        exact lineFeed (List.cons.inj equal).1

theorem pair_write_injective : Function.Injective pair.write := by
  intro first
  induction first with
  | nil =>
      intro second equal
      exact ((write_eq_nil_iff pair).mp equal.symm).symm
  | cons character rest ih =>
      intro second equal
      cases second with
      | nil => exact (write_eq_nil_iff pair).mp equal
      | cons other later =>
          -- After the carriage return of a pair comes a line feed, and after one that stands alone
          -- never does.
          by_cases lineFeed : character = '\n' <;> by_cases otherLineFeed : other = '\n'
          · rw [lineFeed, otherLineFeed, pair_write_cons_lineFeed,
              pair_write_cons_lineFeed] at equal
            rw [lineFeed, otherLineFeed, ih (List.cons.inj (List.cons.inj equal).2).2]
          · rw [lineFeed, pair_write_cons_lineFeed, write_cons_of_ne pair otherLineFeed] at equal
            exact absurd (List.cons.inj equal).2.symm (pair_write_ne_lineFeed_cons later _)
          · rw [otherLineFeed, pair_write_cons_lineFeed, write_cons_of_ne pair lineFeed] at equal
            exact absurd (List.cons.inj equal).2 (pair_write_ne_lineFeed_cons rest _)
          · rw [write_cons_of_ne pair lineFeed, write_cons_of_ne pair otherLineFeed] at equal
            obtain ⟨same, equal⟩ := List.cons.inj equal
            rw [same, ih equal]

theorem write_injective : Function.Injective ending.write := by
  cases ending with
  | lineFeed =>
      intro first second equal
      simpa only [write_lineFeed] using equal
  | pair => exact pair_write_injective

variable {word : List Char}

/-- What does not tell the two line breaks apart sees the same character first. -/
theorem map_head?_write {β : Type} {view : Char → β} (alike : view '\r' = view '\n')
    (text : List Char) : (ending.write text).head?.map view = text.head?.map view := by
  cases text with
  | nil => rfl
  | cons character rest =>
      by_cases lineFeed : character = '\n'
      · subst lineFeed
        cases ending with
        | lineFeed => rfl
        | pair => exact congrArg some alike
      · rw [write_cons_of_ne ending lineFeed]
        rfl

theorem any_head?_write {belongs : Char → Bool} (alike : belongs '\r' = belongs '\n')
    (text : List Char) : (ending.write text).head?.any belongs = text.head?.any belongs := by
  have views := congrArg (Option.any id) (map_head?_write ending alike text)
  rwa [Option.any_map, Option.any_map] at views

theorem all_head?_write {belongs : Char → Bool} (alike : belongs '\r' = belongs '\n')
    (text : List Char) : (ending.write text).head?.all belongs = text.head?.all belongs := by
  have views := congrArg (Option.all id) (map_head?_write ending alike text)
  rwa [Option.all_map, Option.all_map] at views

theorem isPrefixOf_write (noLineFeed : '\n' ∉ word) (noReturn : '\r' ∉ word)
    (text : List Char) : word.isPrefixOf (ending.write text) = word.isPrefixOf text := by
  induction word generalizing text with
  | nil => rfl
  | cons first later ih =>
      obtain ⟨notLineFeed, noLineFeed⟩ := List.ne_and_not_mem_of_not_mem_cons noLineFeed
      obtain ⟨notReturn, noReturn⟩ := List.ne_and_not_mem_of_not_mem_cons noReturn
      cases text with
      | nil => rfl
      | cons character rest =>
          by_cases lineFeed : character = '\n'
          · subst lineFeed
            have absent : (first == '\n') = false := by simpa using notLineFeed.symm
            cases ending with
            | lineFeed => rw [write_lineFeed]
            | pair =>
                have absent' : (first == '\r') = false := by simpa using notReturn.symm
                simp [pair_write_cons_lineFeed, List.isPrefixOf, absent, absent']
          · rw [write_cons_of_ne ending lineFeed, List.isPrefixOf, List.isPrefixOf,
              ih noLineFeed noReturn]

theorem drop_write (noLineFeed : '\n' ∉ word) {text : List Char} (isAhead : word.isPrefixOf text) :
    (ending.write text).drop word.length = ending.write (text.drop word.length) := by
  obtain ⟨rest, rfl⟩ := List.isPrefixOf_iff_prefix.mp isAhead
  rw [write_append, write_eq_self ending noLineFeed, List.drop_left, List.drop_left]

/-- Each character is written as itself, or else is dropped and is written as characters that are
dropped as well. -/
theorem dropWhile_flatMap {spell : Char → List Char} {dropped : Char → Bool}
    (spells : ∀ character,
      spell character = [character] ∨ dropped character ∧ ∀ letter ∈ spell character, dropped letter)
    (text : List Char) :
    (text.flatMap spell).dropWhile dropped = (text.dropWhile dropped).flatMap spell := by
  induction text with
  | nil => rfl
  | cons character rest ih =>
      rw [List.flatMap_cons]
      rcases spells character with single | ⟨isDropped, allDropped⟩
      · rw [single, List.singleton_append, List.dropWhile_cons, List.dropWhile_cons, ih]
        split
        · rfl
        · rw [List.flatMap_cons, single, List.singleton_append]
      · rw [List.dropWhile_append_of_pos allDropped, ih, List.dropWhile_cons_of_pos isDropped]

theorem letters_cases (character : Char) :
    ending.letters character = [character] ∨
      isWhitespace character ∧ ∀ letter ∈ ending.letters character, isWhitespace letter := by
  by_cases lineFeed : character = '\n'
  · subst lineFeed
    cases ending with
    | lineFeed => exact .inl rfl
    | pair => exact .inr ⟨rfl, by simp [letters, isWhitespace, isLineBreak]⟩
  · exact .inl (letters_of_ne ending lineFeed)

theorem reverse_write (text : List Char) :
    (ending.write text).reverse = text.reverse.flatMap (List.reverse ∘ ending.letters) :=
  List.reverse_flatMap

theorem trimEnds_write (text : List Char) :
    trimEnds isWhitespace (ending.write text) = ending.write (trimEnds isWhitespace text) := by
  have backwards (character : Char) :
      (List.reverse ∘ ending.letters) character = [character] ∨
        isWhitespace character ∧
          ∀ letter ∈ (List.reverse ∘ ending.letters) character, isWhitespace letter := by
    rcases ending.letters_cases character with single | ⟨isDropped, allDropped⟩
    · exact .inl (by simp [single])
    · exact .inr ⟨isDropped, by simpa using allDropped⟩
  have forwards : (ending.write text).dropWhile isWhitespace =
      ending.write (text.dropWhile isWhitespace) := dropWhile_flatMap ending.letters_cases text
  unfold trimEnds
  rw [forwards, reverse_write, dropWhile_flatMap backwards, List.reverse_flatMap]
  congr 1
  funext character
  simp

theorem any_getLast?_write (text : List Char) :
    (ending.write text).getLast?.any isWhitespace = text.getLast?.any isWhitespace := by
  rw [List.getLast?_eq_head?_reverse, List.getLast?_eq_head?_reverse, reverse_write]
  cases text.reverse with
  | nil => rfl
  | cons character rest =>
      by_cases lineFeed : character = '\n'
      · subst lineFeed
        cases ending <;> rfl
      · rw [List.flatMap_cons, Function.comp_apply, letters_of_ne ending lineFeed]
        rfl

theorem flatten_write (text : List Char) :
    WhitespacePolicy.flatten (ending.write text) = WhitespacePolicy.flatten text := by
  induction text with
  | nil => rfl
  | cons character rest ih =>
      have next : (ending.write rest).head?.any isWhitespace = rest.head?.any isWhitespace :=
        any_head?_write ending rfl rest
      by_cases lineFeed : character = '\n'
      · subst lineFeed
        cases ending with
        | lineFeed => rw [write_lineFeed]
        | pair =>
            have onReturn : isWhitespace '\r' = true := rfl
            have onLineFeed : isWhitespace '\n' = true := rfl
            rw [pair_write_cons_lineFeed]
            simp only [WhitespacePolicy.flatten, List.head?_cons, Option.any_some, onReturn,
              onLineFeed, if_true, next, ih]
      · rw [write_cons_of_ne ending lineFeed, WhitespacePolicy.flatten, next, ih,
          WhitespacePolicy.flatten]

theorem lineFeed_not_mem_flatten (text : List Char) : '\n' ∉ WhitespacePolicy.flatten text := by
  induction text with
  | nil => exact List.not_mem_nil
  | cons character rest ih =>
      unfold WhitespacePolicy.flatten
      split
      · split
        · exact ih
        · exact List.not_mem_cons_of_ne_of_not_mem (by decide) ih
      · next visible =>
          refine List.not_mem_cons_of_ne_of_not_mem ?_ ih
          rintro rfl
          exact visible (by decide)

/-- A policy treats a pair as one line break. -/
theorem apply_write (policy : WhitespacePolicy) (text : List Char) :
    policy.apply (ending.write text) = ending.write (policy.apply text) := by
  have isEmpty (part : List Char) : (ending.write part).isEmpty = part.isEmpty := by
    rw [Bool.eq_iff_iff, List.isEmpty_iff, List.isEmpty_iff, write_eq_nil_iff]
  have edge (strip isPresent : Bool) :
      ending.write (WhitespacePolicy.edge strip isPresent) = WhitespacePolicy.edge strip isPresent := by
    refine write_eq_self ending ?_
    unfold WhitespacePolicy.edge
    split <;> simp
  have interior (core : List Char) :
      (if policy.flattenInterior then WhitespacePolicy.flatten (ending.write core)
        else ending.write core) =
      ending.write (if policy.flattenInterior then WhitespacePolicy.flatten core else core) := by
    split
    · rw [flatten_write, write_eq_self ending (lineFeed_not_mem_flatten core)]
    · rfl
  have starts : (ending.write text).head?.any isWhitespace = text.head?.any isWhitespace :=
    any_head?_write ending rfl text
  unfold WhitespacePolicy.apply
  simp only [trimEnds_write, isEmpty, starts, any_getLast?_write, interior]
  split
  · rw [edge]
  · rw [write_append, write_append, edge, edge]

theorem mentions_write {mayPrecede : Char → Bool} (nonempty : word ≠ [])
    (noLineFeed : '\n' ∉ word) (noReturn : '\r' ∉ word)
    (previous : Option Char) (text : List Char) :
    Expression.mentions word mayPrecede previous (ending.write text) =
      Expression.mentions word mayPrecede previous text := by
  induction text generalizing previous with
  | nil => rfl
  | cons character rest ih =>
      by_cases lineFeed : character = '\n'
      · subst lineFeed
        cases ending with
        | lineFeed => rw [write_lineFeed]
        | pair =>
            cases word with
            | nil => exact absurd rfl nonempty
            | cons first later =>
                have notReturn : (first == '\r') = false := by
                  simpa using (List.ne_and_not_mem_of_not_mem_cons noReturn).1.symm
                have notLineFeed : (first == '\n') = false := by
                  simpa using (List.ne_and_not_mem_of_not_mem_cons noLineFeed).1.symm
                simp only [pair_write_cons_lineFeed, Expression.mentions, List.isPrefixOf,
                  notReturn, notLineFeed, Bool.false_and, Bool.and_false, Bool.false_or, ih]
      · have here : ending.write (character :: rest) = character :: ending.write rest :=
          write_cons_of_ne ending lineFeed rest
        have isAhead : word.isPrefixOf (character :: ending.write rest) =
            word.isPrefixOf (character :: rest) := by
          rw [← here, isPrefixOf_write ending noLineFeed noReturn]
        rw [here, Expression.mentions, Expression.mentions, ih, isAhead]
        cases ahead : word.isPrefixOf (character :: rest) with
        | false => simp
        | true =>
            have ends : Expression.endsWord ((character :: ending.write rest).drop word.length) =
                Expression.endsWord ((character :: rest).drop word.length) := by
              rw [← here, drop_write ending noLineFeed ahead, Expression.endsWord,
                any_head?_write ending (by decide), Expression.endsWord]
            rw [ends]

theorem classify_write (text : List Char) :
    Expression.classify (ending.write text) = Expression.classify text := by
  unfold Expression.classify Expression.isAsync Expression.referencesProps
  rw [mentions_write ending (by decide) (by decide) (by decide),
    mentions_write ending (by decide) (by decide) (by decide)]

end LineEnding

end TemplateMarkup
