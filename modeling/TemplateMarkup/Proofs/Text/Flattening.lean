import TemplateMarkup.Proofs.Canonical.Spacing

/-!
# What policies leave

The texts that a policy makes.  Flattened text has no white space but single spaces, and an end that is
stripped is no white space.
-/

namespace TemplateMarkup

open CharacterClass

namespace IsSpaced

theorem cons {character : Char} {rest : List Char} (spaced : IsSpaced rest)
    (isPlain : isWhitespace character → character = ' ')
    (isSingle : isWhitespace character → rest.head?.any isWhitespace = false) :
    IsSpaced (character :: rest) := by
  refine ⟨List.forall_mem_cons.mpr ⟨isPlain, spaced.1⟩, fun double => ?_⟩
  rcases List.infix_cons_iff.mp double with isPrefix | inside
  · obtain ⟨after, split⟩ := isPrefix
    cases split
    cases isSingle rfl
  · exact spaced.2 inside

end IsSpaced

namespace WhitespacePolicy

theorem any_head?_flatten (text : List Char) :
    (flatten text).head?.any isWhitespace = text.head?.any isWhitespace := by
  induction text with
  | nil => rfl
  | cons character rest ih =>
      rw [flatten]
      split
      · next isSpace =>
          split
          · next another => rw [ih, another, List.head?_cons, Option.any_some, isSpace]
          · rw [List.head?_cons, List.head?_cons, Option.any_some, Option.any_some, isSpace]
            rfl
      · rfl

theorem isSpaced_flatten (text : List Char) : IsSpaced (flatten text) := by
  induction text with
  | nil => exact ⟨nofun, by simp [flatten]⟩
  | cons character rest ih =>
      rw [flatten]
      split
      · split
        · exact ih
        · next notAnother =>
            refine ih.cons (fun _ => rfl) fun _ => ?_
            rw [any_head?_flatten]
            simpa using notAnother
      · next notSpace => exact ih.cons (absurd · notSpace) (absurd · notSpace)

theorem flatten_eq_nil_iff {text : List Char} : flatten text = [] ↔ text = [] := by
  induction text with
  | nil => exact ⟨fun _ => rfl, fun _ => rfl⟩
  | cons character rest ih =>
      refine ⟨fun isEmpty => ?_, nofun⟩
      rw [flatten] at isEmpty
      split at isEmpty
      · split at isEmpty
        · next another =>
            rw [ih.mp isEmpty] at another
            cases another
        · cases isEmpty
      · cases isEmpty

theorem any_getLast?_flatten (text : List Char) :
    (flatten text).getLast?.any isWhitespace = text.getLast?.any isWhitespace := by
  induction text with
  | nil => rfl
  | cons character rest ih =>
      by_cases isLast : rest = []
      · rw [isLast, flatten]
        cases isSpace : isWhitespace character with
        | true => simp [flatten, isSpace, show isWhitespace ' ' = true from rfl]
        | false => simp [flatten, isSpace]
      · have sameEnd (first : Char) :
            (first :: flatten rest).getLast?.any isWhitespace = rest.getLast?.any isWhitespace := by
          rw [← ih, List.getLast?_cons_of_ne_nil (isLast ∘ flatten_eq_nil_iff.mp)]
        rw [List.getLast?_cons_of_ne_nil isLast, flatten]
        split
        · split
          · exact ih
          · exact sameEnd ' '
        · exact sameEnd character

theorem isSpaced_edge (strip isPresent : Bool) : IsSpaced (edge strip isPresent) := by
  cases strip <;> cases isPresent <;> decide

theorem edge_true (isPresent : Bool) : edge true isPresent = [] := by
  rw [edge, Bool.not_true, Bool.and_false]
  rfl

theorem isSpaced_edge_append (strip isPresent : Bool) {text : List Char} (spaced : IsSpaced text)
    (noSpace : text.head?.any isWhitespace = false) : IsSpaced (edge strip isPresent ++ text) := by
  unfold edge
  split
  · exact spaced.cons (fun _ => rfl) fun _ => noSpace
  · exact spaced

theorem isSpaced_append_edge (strip isPresent : Bool) {text : List Char} (spaced : IsSpaced text)
    (noSpace : text.getLast?.any isWhitespace = false) : IsSpaced (text ++ edge strip isPresent) := by
  have palindrome : (edge strip isPresent).reverse = edge strip isPresent := by
    unfold edge
    split <;> rfl
  have reversed := isSpaced_edge_append strip isPresent spaced.reverse
    (by rwa [List.head?_reverse])
  rw [← palindrome, ← List.reverse_append] at reversed
  simpa using reversed.reverse

/-- What is made of the text between two tags. -/
theorem apply_between (isFirst isLast : Bool) (text : List Char) :
    IsSpaced ((between isFirst isLast).apply text) ∧
      (isFirst → ((between isFirst isLast).apply text).head?.any isWhitespace = false) ∧
      (isLast → ((between isFirst isLast).apply text).getLast?.any isWhitespace = false) := by
  unfold apply between
  dsimp only
  split
  · refine ⟨isSpaced_edge _ _, ?_, ?_⟩
    · rintro rfl
      rw [Bool.true_or, edge_true]
      rfl
    · rintro rfl
      rw [Bool.or_true, edge_true]
      rfl
  · next hasCore =>
      rw [if_pos rfl]
      have nonempty : flatten (trimEnds isWhitespace text) ≠ [] := by
        simpa [flatten_eq_nil_iff] using hasCore
      have atStart := (any_head?_flatten _).trans (any_head?_trimEnds isWhitespace text)
      have atEnd := (any_getLast?_flatten _).trans (any_getLast?_trimEnds isWhitespace text)
      have spaced := isSpaced_flatten (trimEnds isWhitespace text)
      generalize flatten (trimEnds isWhitespace text) = core at nonempty atStart atEnd spaced
      refine ⟨?_, ?_, ?_⟩
      · refine isSpaced_append_edge _ _ (isSpaced_edge_append _ _ spaced atStart) ?_
        rwa [List.getLast?_append_of_ne_nil _ nonempty]
      · rintro rfl
        rwa [edge_true, List.nil_append, List.head?_append_of_ne_nil _ nonempty]
      · rintro rfl
        rwa [edge_true, List.append_nil, List.getLast?_append_of_ne_nil _ nonempty]

/-- A raw body has no white space at its ends. -/
theorem apply_rawBody (text : List Char) : rawBody.apply text = trimEnds isWhitespace text := by
  unfold apply rawBody
  dsimp only
  split
  · next noCore =>
      rw [Bool.true_or, edge_true]
      exact (List.isEmpty_iff.mp noCore).symm
  · rw [edge_true, edge_true, List.nil_append, List.append_nil]
    rfl

end WhitespacePolicy

end TemplateMarkup
