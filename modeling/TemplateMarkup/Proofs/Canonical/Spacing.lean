import TemplateMarkup.Proofs.Canonical.Writing
import TemplateMarkup.Proofs.Text.Trimming

/-!
# Texts that are left alone

A text whose white space is nothing but single spaces is not changed by any policy that keeps the
spaces at its ends.  Such a text is its core with at most one space on either side, and the core is
flat already.
-/

namespace TemplateMarkup

open CharacterClass

namespace IsSpaced

theorem of_infix {text part : List Char} (spaced : IsSpaced text) (inside : part <:+: text) :
    IsSpaced part := by
  constructor
  · intro character member
    exact spaced.1 character (inside.subset member)
  · intro double
    exact spaced.2 (double.trans inside)

theorem reverse {text : List Char} (spaced : IsSpaced text) : IsSpaced text.reverse := by
  constructor
  · intro character member
    exact spaced.1 character (List.mem_reverse.mp member)
  · intro double
    exact spaced.2 (List.reverse_infix.mp (by simpa using double))

theorem not_whitespace_after {character : Char} {rest : List Char}
    (spaced : IsSpaced (character :: rest)) (isSpace : isWhitespace character) :
    rest.head?.any isWhitespace = false := by
  cases rest with
  | nil => rfl
  | cons next rest =>
      rw [Bool.eq_false_iff]
      intro another
      have first : character = ' ' := spaced.1 character (by simp) isSpace
      have second : next = ' ' := spaced.1 next (by simp) (by simpa using another)
      refine spaced.2 ⟨[], rest, ?_⟩
      rw [first, second]
      rfl

theorem flatten_eq {text : List Char} (spaced : IsSpaced text) :
    WhitespacePolicy.flatten text = text := by
  induction text with
  | nil => rfl
  | cons character rest ih =>
      have flat := ih (spaced.of_infix (List.suffix_cons character rest).isInfix)
      unfold WhitespacePolicy.flatten
      split
      · next isSpace =>
          have first : character = ' ' := spaced.1 character (by simp) isSpace
          rw [if_neg (by simp [spaced.not_whitespace_after isSpace]), flat, first]
      · rw [flat]

/-- At most one space is dropped at the start. -/
theorem eq_space_append {text : List Char} (spaced : IsSpaced text) :
    text = (if text.head?.any isWhitespace then [' '] else []) ++ text.dropWhile isWhitespace := by
  cases text with
  | nil => rfl
  | cons character rest =>
      by_cases isSpace : isWhitespace character = true
      · have first : character = ' ' := spaced.1 character (by simp) isSpace
        have stops : rest.dropWhile isWhitespace = rest := by
          have next := spaced.not_whitespace_after isSpace
          cases rest with
          | nil => rfl
          | cons next rest => simp_all
        rw [List.head?_cons, Option.any_some, List.dropWhile_cons, if_pos isSpace, if_pos isSpace,
          stops, first]
        rfl
      · simp [isSpace]

/-- A text is its core with at most one space on either side. -/
theorem eq_trimEnds {text : List Char} (spaced : IsSpaced text)
    (hasCore : trimEnds isWhitespace text ≠ []) :
    text = (if text.head?.any isWhitespace then [' '] else []) ++
      trimEnds isWhitespace text ++ (if text.getLast?.any isWhitespace then [' '] else []) := by
  have atStart := spaced.eq_space_append
  have fromCore : IsSpaced (text.dropWhile isWhitespace) :=
    spaced.of_infix (List.dropWhile_suffix _).isInfix
  have atEnd := congrArg List.reverse fromCore.reverse.eq_space_append
  have notEmpty : text.dropWhile isWhitespace ≠ [] := by
    intro empty
    exact hasCore (by rw [trimEnds, empty]; rfl)
  have sameEnd : (text.dropWhile isWhitespace).getLast? = text.getLast? := by
    conv_rhs => rw [atStart]
    rw [List.getLast?_append_of_ne_nil _ notEmpty]
  rw [List.reverse_reverse, List.reverse_append, List.head?_reverse, sameEnd] at atEnd
  conv_lhs => rw [atStart, atEnd]
  rw [trimEnds, List.append_assoc]
  have sameSpace : (if text.getLast?.any isWhitespace then [' '] else []).reverse =
      if text.getLast?.any isWhitespace then [' '] else [] := by
    split <;> rfl
  rw [sameSpace]

/-- A text without a core is empty or a single space. -/
theorem eq_space {text : List Char} (spaced : IsSpaced text)
    (noCore : trimEnds isWhitespace text = []) : text = [] ∨ text = [' '] := by
  have all := List.dropWhile_eq_nil_iff.mp (List.reverse_eq_nil_iff.mp noCore)
  have again := List.dropWhile_eq_nil_iff.mpr fun character member =>
    all character (List.mem_reverse.mpr member)
  have dropped : text.dropWhile isWhitespace = [] :=
    (List.dropWhile_idempotent isWhitespace text).symm.trans again
  have whole := spaced.eq_space_append
  rw [dropped, List.append_nil] at whole
  rw [whole]
  split
  · exact .inr rfl
  · exact .inl rfl

end IsSpaced

/-- White space is left alone at an end that is not stripped. -/
theorem WhitespacePolicy.apply_eq_self {policy : WhitespacePolicy} {text : List Char}
    (spaced : IsSpaced text) (leading : policy.stripLeading → text.head? ≠ some ' ')
    (trailing : policy.stripTrailing → text.getLast? ≠ some ' ') : policy.apply text = text := by
  have edges (strip : Bool) (first : Option Char) (isOurs : ∀ character ∈ first, character ∈ text)
      (kept : strip → first ≠ some ' ') :
      edge strip (first.any isWhitespace) = if first.any isWhitespace then [' '] else [] := by
    cases first with
    | none => simp [edge]
    | some character =>
        by_cases isSpace : isWhitespace character = true
        · have space : character = ' ' := spaced.1 character (isOurs character rfl) isSpace
          have notStripped : strip = false := by
            rw [Bool.eq_false_iff]
            intro stripped
            exact kept stripped (by rw [space])
          simp [edge, notStripped, isSpace]
        · simp [edge, isSpace]
  unfold apply
  by_cases hasCore : trimEnds isWhitespace text = []
  · have noCore : (trimEnds isWhitespace text).isEmpty = true := by simpa using hasCore
    simp only [noCore, if_true]
    rcases spaced.eq_space hasCore with rfl | rfl
    · simp [edge]
    · have keptStart : policy.stripLeading = false := by simpa using leading
      have keptEnd : policy.stripTrailing = false := by simpa using trailing
      simp [edge, keptStart, keptEnd]
  · have isCore : (trimEnds isWhitespace text).isEmpty = false := by simpa using hasCore
    have flat : flatten (trimEnds isWhitespace text) = trimEnds isWhitespace text :=
      IsSpaced.flatten_eq (spaced.of_infix (isInfix_of_trimEnds isWhitespace text))
    simp only [isCore, flat, ite_self, Bool.false_eq_true, if_false]
    rw [edges _ _ (fun _ => List.mem_of_head?) leading,
      edges _ _ (fun _ => List.mem_of_getLast?) trailing]
    exact (spaced.eq_trimEnds hasCore).symm

end TemplateMarkup
