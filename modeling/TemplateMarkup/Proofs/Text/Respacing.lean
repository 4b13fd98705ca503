import Mathlib.Data.List.Basic
import TemplateMarkup.Text.Whitespace

/-!
# Which white space it is

Where a policy flattens the interior of a text, a run of white space counts as such and not for what it
consists of.  At the ends of the text it becomes a space or nothing, and anywhere else a space.
-/

namespace TemplateMarkup

open CharacterClass

/-- Some white space. -/
def IsSpace (text : List Char) : Prop :=
  text ≠ [] ∧ ∀ character ∈ text, isWhitespace character

instance (text : List Char) : Decidable (IsSpace text) :=
  inferInstanceAs (Decidable (_ ∧ _))

namespace IsSpace

variable {run run' : List Char}

theorem isWhitespace_head? (space : IsSpace run) (after : List Char) :
    (run ++ after).head?.any isWhitespace := by
  obtain ⟨nonempty, all⟩ := space
  cases run with
  | nil => exact absurd rfl nonempty
  | cons first rest => exact all first (by simp)

theorem reverse (space : IsSpace run) : IsSpace run.reverse :=
  ⟨by simpa using space.1, fun character member => space.2 character (List.mem_reverse.mp member)⟩

theorem isWhitespace_getLast? (space : IsSpace run) (before : List Char) :
    (before ++ run).getLast?.any isWhitespace := by
  rw [← List.head?_reverse, List.reverse_append]
  exact space.reverse.isWhitespace_head? before.reverse

theorem dropWhile_append (space : IsSpace run) (after : List Char) :
    (run ++ after).dropWhile isWhitespace = after.dropWhile isWhitespace :=
  List.dropWhile_append_of_pos space.2

theorem flatten_append (space : IsSpace run) (after : List Char) :
    WhitespacePolicy.flatten (run ++ after) = WhitespacePolicy.flatten (' ' :: after) := by
  obtain ⟨nonempty, all⟩ := space
  induction run with
  | nil => exact absurd rfl nonempty
  | cons first rest ih =>
      have isFirst : isWhitespace first := all first (by simp)
      rw [List.cons_append, WhitespacePolicy.flatten, if_pos isFirst]
      cases rest with
      | nil => rfl
      | cons second rest =>
          have isSecond : isWhitespace second := all second (by simp)
          have allLater : ∀ character ∈ second :: rest, isWhitespace character :=
            fun character member => all character (List.mem_cons_of_mem _ member)
          rw [if_pos (by simp [isSecond])]
          exact ih (List.cons_ne_nil _ _) allLater

theorem flatten_congr (space : IsSpace run) (space' : IsSpace run') (before after : List Char) :
    WhitespacePolicy.flatten (before ++ (run ++ after)) =
      WhitespacePolicy.flatten (before ++ (run' ++ after)) := by
  induction before with
  | nil =>
      rw [List.nil_append, List.nil_append, space.flatten_append, space'.flatten_append]
  | cons first before ih =>
      have sameNext : (before ++ (run' ++ after)).head?.any isWhitespace =
          (before ++ (run ++ after)).head?.any isWhitespace := by
        cases before with
        | nil => exact (space'.isWhitespace_head? after).trans (space.isWhitespace_head? after).symm
        | cons => rfl
      simp only [List.cons_append, WhitespacePolicy.flatten, sameNext, ih]

/-- The core of a text has a run of white space in it, or does not depend on the run. -/
theorem trimEnds_append (before after : List Char) :
    (∃ core, ∀ run, IsSpace run → trimEnds isWhitespace (before ++ (run ++ after)) = core) ∨
      ∃ first last, ∀ run, IsSpace run →
        trimEnds isWhitespace (before ++ (run ++ after)) = first ++ (run ++ last) := by
  by_cases noFirst : before.dropWhile isWhitespace = []
  · refine .inl ⟨trimEnds isWhitespace after, fun run space => ?_⟩
    rw [trimEnds, List.dropWhile_append, if_pos (by simp [noFirst]), space.dropWhile_append, trimEnds]
  · have atStart (run : List Char) : (before ++ (run ++ after)).dropWhile isWhitespace =
        before.dropWhile isWhitespace ++ (run ++ after) := by
      rw [List.dropWhile_append, if_neg (by simpa using noFirst)]
    by_cases noLast : after.reverse.dropWhile isWhitespace = []
    · refine .inl ⟨trimEnds isWhitespace before, fun run space => ?_⟩
      rw [trimEnds, atStart, List.reverse_append, List.reverse_append, List.append_assoc,
        List.dropWhile_append, if_pos (by simp [noLast]), space.reverse.dropWhile_append,
        trimEnds]
    · refine .inr ⟨before.dropWhile isWhitespace,
        (after.reverse.dropWhile isWhitespace).reverse, fun run space => ?_⟩
      rw [trimEnds, atStart, List.reverse_append, List.reverse_append, List.append_assoc,
        List.dropWhile_append, if_neg (by simpa using noLast)]
      simp

end IsSpace

/-- A policy that flattens the interior makes the same of all runs of white space. -/
theorem WhitespacePolicy.apply_respace {policy : WhitespacePolicy} {run run' : List Char}
    (flattens : policy.flattenInterior) (space : IsSpace run) (space' : IsSpace run')
    (before after : List Char) :
    policy.apply (before ++ (run ++ after)) = policy.apply (before ++ (run' ++ after)) := by
  have nonempty {run : List Char} (space : IsSpace run) : (before ++ (run ++ after)).isEmpty = false := by
    simp [space.1]
  have sameHead : (before ++ (run ++ after)).head?.any isWhitespace =
      (before ++ (run' ++ after)).head?.any isWhitespace := by
    cases before with
    | nil => exact (space.isWhitespace_head? after).trans (space'.isWhitespace_head? after).symm
    | cons => rfl
  have sameLast : (before ++ (run ++ after)).getLast?.any isWhitespace =
      (before ++ (run' ++ after)).getLast?.any isWhitespace := by
    by_cases atEnd : after = []
    · rw [atEnd, List.append_nil, List.append_nil, space.isWhitespace_getLast?,
        space'.isWhitespace_getLast?]
    · have isLast (text : List Char) : (text ++ after).getLast? = after.getLast? :=
        List.getLast?_append_of_ne_nil text atEnd
      rw [← List.append_assoc, ← List.append_assoc, isLast, isLast]
  unfold apply
  simp only [nonempty space, nonempty space', sameHead, sameLast, flattens, if_true]
  rcases IsSpace.trimEnds_append before after with ⟨core, isCore⟩ | ⟨first, last, isCore⟩
  · rw [isCore run space, isCore run' space']
  · have hasCore {run : List Char} (space : IsSpace run) : (first ++ (run ++ last)).isEmpty = false := by
      simp [space.1]
    rw [isCore run space, isCore run' space', hasCore space, hasCore space',
      space.flatten_congr space']

end TemplateMarkup
