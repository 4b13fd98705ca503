import Mathlib.Data.List.DropRight
import TemplateMarkup.Text.Whitespace

/-!
# Ends of a text

What is dropped from the ends of a text, and what is left of it.  A text is what is left with what has
been dropped on either side, and the same is left of every other text that has these parts.
-/

namespace TemplateMarkup

section

variable {dropped : Char → Bool}

theorem any_head?_dropWhile (dropped : Char → Bool) (text : List Char) :
    (text.dropWhile dropped).head?.any dropped = false := by
  induction text with
  | nil => rfl
  | cons character rest ih =>
      rw [List.dropWhile_cons]
      split
      · exact ih
      · next kept => simpa using kept

theorem dropWhile_eq_self {text : List Char} (kept : text.head?.any dropped = false) :
    text.dropWhile dropped = text := by
  cases text with
  | nil => rfl
  | cons first rest => exact List.dropWhile_cons_of_neg (by simpa using kept)

/-- Whatever is dropped up to a mark, the mark is left. -/
theorem eq_of_dropWhile_ne_eq_cons {mark first : Char} {text rest : List Char}
    (left : text.dropWhile (· != mark) = first :: rest) : first = mark := by
  have stops := any_head?_dropWhile (· != mark) text
  rw [left] at stops
  simpa using stops

theorem any_getLast?_trimEnds (dropped : Char → Bool) (text : List Char) :
    (trimEnds dropped text).getLast?.any dropped = false := by
  rw [trimEnds, List.getLast?_reverse]
  exact any_head?_dropWhile dropped _

theorem any_head?_trimEnds (dropped : Char → Bool) (text : List Char) :
    (trimEnds dropped text).head?.any dropped = false := by
  have atStart := any_head?_dropWhile dropped text
  have isPrefix : trimEnds dropped text <+: text.dropWhile dropped :=
    List.rdropWhile_prefix dropped _
  cases core : trimEnds dropped text with
  | nil => rfl
  | cons character rest =>
      obtain ⟨after, split⟩ := core ▸ isPrefix
      rwa [← split] at atStart

/-- A text is what is left of it with what has been dropped on either side. -/
theorem exists_eq_append_trimEnds (dropped : Char → Bool) (text : List Char) :
    ∃ before after, text = before ++ (trimEnds dropped text ++ after) ∧
      (∀ character ∈ before, dropped character) ∧ ∀ character ∈ after, dropped character := by
  refine ⟨text.takeWhile dropped, ((text.dropWhile dropped).reverse.takeWhile dropped).reverse, ?_,
    fun _ => List.mem_takeWhile_imp,
    fun character member => List.mem_takeWhile_imp (List.mem_reverse.mp member)⟩
  rw [trimEnds, ← List.reverse_append, List.takeWhile_append_dropWhile, List.reverse_reverse,
    List.takeWhile_append_dropWhile]

theorem isInfix_of_trimEnds (dropped : Char → Bool) (text : List Char) :
    trimEnds dropped text <:+: text := by
  obtain ⟨before, after, whole, -, -⟩ := exists_eq_append_trimEnds dropped text
  exact ⟨before, after, by rw [List.append_assoc, ← whole]⟩

/-- What is left of a text whose core is kept at both of its ends. -/
theorem trimEnds_append_append {before core after : List Char}
    (allBefore : ∀ character ∈ before, dropped character)
    (allAfter : ∀ character ∈ after, dropped character)
    (first : core.head?.any dropped = false) (last : core.getLast?.any dropped = false) :
    trimEnds dropped (before ++ (core ++ after)) = core := by
  have atStart : (before ++ (core ++ after)).dropWhile dropped = (core ++ after).dropWhile dropped :=
    List.dropWhile_append_of_pos allBefore
  have allAfter' : ∀ character ∈ after.reverse, dropped character :=
    fun character member => allAfter character (List.mem_reverse.mp member)
  cases core with
  | nil =>
      have none : after.dropWhile dropped = [] := List.dropWhile_eq_nil_iff.mpr allAfter
      rw [trimEnds, atStart, List.nil_append, none]
      rfl
  | cons character rest =>
      have kept : (character :: rest ++ after).dropWhile dropped = character :: rest ++ after :=
        dropWhile_eq_self first
      have atEnd : (character :: rest).reverse.dropWhile dropped = (character :: rest).reverse :=
        dropWhile_eq_self (by rwa [List.head?_reverse])
      rw [trimEnds, atStart, kept, List.reverse_append, List.dropWhile_append_of_pos allAfter', atEnd,
        List.reverse_reverse]

end

/-- Where a run of characters of a class ends, a text is parted in one way only. -/
theorem eq_of_append_eq_append {belongs : Char → Bool} {run run' rest rest' : List Char}
    (inRun : ∀ character ∈ run, belongs character) (inRun' : ∀ character ∈ run', belongs character)
    (ends : rest.head?.any belongs = false) (ends' : rest'.head?.any belongs = false)
    (same : run ++ rest = run' ++ rest') : run = run' ∧ rest = rest' := by
  have sameRest : rest = rest' := by
    rw [← dropWhile_eq_self ends, ← dropWhile_eq_self ends', ← List.dropWhile_append_of_pos inRun,
      same, List.dropWhile_append_of_pos inRun']
  subst sameRest
  exact ⟨List.append_cancel_right same, rfl⟩

end TemplateMarkup
