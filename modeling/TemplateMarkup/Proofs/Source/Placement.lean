import TemplateMarkup.Proofs.Source.Passage

/-!
# Where a text ends

The position at which a text ends, given the position at which it starts and the character after it.
Line feeds, form feeds and lone carriage returns start a line, a carriage return before a line feed
moves nothing, and every other character takes one column.

A cursor that has passed a text stands where the text ends.  Positions never go back along a text, and
they move together with the position of its first character.
-/

namespace TemplateMarkup

open CharacterClass

namespace Position

/-- The position after a text that another character may follow. -/
def past (position : Position) (following : Option Char) : List Char → Position
  | [] => position
  | character :: rest =>
      if character = '\r' ∧ rest.head?.or following = some '\n' then past position following rest
      else if character ∈ ['\n', '\r', '\x0c'] then past ⟨position.line + 1, 1⟩ following rest
      else past ⟨position.line, position.column + 1⟩ following rest

theorem past_cons (position : Position) (following : Option Char) (character : Char)
    (rest : List Char) :
    position.past following (character :: rest) =
      (position.after character (rest.head?.or following)).past following rest := by
  have isBreak : character ∈ ['\n', '\r', '\x0c'] ↔ isLineBreak character = true := by
    simp [isLineBreak, or_assoc]
  have isPaired : (character == '\r' && rest.head?.or following == some '\n') = true ↔
      character = '\r' ∧ rest.head?.or following = some '\n' := by
    rw [Bool.and_eq_true, beq_iff_eq, beq_iff_eq]
  rw [past, after]
  simp only [isBreak, isPaired]
  split
  · rfl
  · split <;> rfl

theorem compare_eq_lt_iff {first second : Position} :
    compare first second = .lt ↔
      first.line < second.line ∨ first.line = second.line ∧ first.column < second.column := by
  show (compare first.line second.line).then (compare first.column second.column) = .lt ↔ _
  rw [Ordering.then_eq_lt, Nat.compare_eq_lt, Nat.compare_eq_eq, Nat.compare_eq_lt]

theorem compare_trans {first second third : Position} (lower : compare first second = .lt)
    (upper : compare second third = .lt) : compare first third = .lt := by
  rw [compare_eq_lt_iff] at *
  omega

/-- Only a carriage return before a line feed leaves the position where it is. -/
theorem after_cases (position : Position) (character : Char) (following : Option Char) :
    position.after character following = position ∧ character = '\r' ∧ following = some '\n' ∨
      compare position (position.after character following) = .lt := by
  unfold after
  split
  · next beforeLineFeed => exact .inl ⟨rfl, by simpa using beforeLineFeed⟩
  · refine .inr ?_
    rw [compare_eq_lt_iff]
    split
    · exact .inl (Nat.lt_succ_self _)
    · exact .inr ⟨rfl, Nat.lt_succ_self _⟩

/-- A text ends after the place where it starts, unless it is a carriage return before a line feed. -/
theorem compare_past (position : Position) {following : Option Char} {text : List Char}
    (nonempty : text ≠ []) :
    compare position (position.past following text) = .lt ∨
      text = ['\r'] ∧ following = some '\n' := by
  induction text generalizing position with
  | nil => exact absurd rfl nonempty
  | cons character rest ih =>
      rw [past_cons]
      cases rest with
      | nil =>
          rcases position.after_cases character following with ⟨-, rfl, isLineFeed⟩ | forward
          · exact .inr ⟨rfl, isLineFeed⟩
          · exact .inl forward
      | cons next rest =>
          refine .inl ?_
          rcases position.after_cases character (some next) with ⟨stays, -, isLineFeed⟩ | forward
          · -- After the carriage return stands its line feed, so the rest is no carriage return.
            rw [List.head?_cons, Option.some_or, stays]
            refine (ih position (List.cons_ne_nil _ _)).resolve_right ?_
            rintro ⟨isReturn, -⟩
            cases isReturn
            cases isLineFeed
          · rw [List.head?_cons, Option.some_or]
            rcases ih (position.after character (some next)) (List.cons_ne_nil _ _) with
              later | ⟨isReturn, isLineFeed⟩
            · exact compare_trans forward later
            · cases isReturn
              rw [isLineFeed, past_cons]
              exact forward

/-- Lines and columns are counted from one. -/
structure IsCounted (position : Position) : Prop where
  line : 1 ≤ position.line
  column : 1 ≤ position.column

theorem isCounted_start : start.IsCounted :=
  ⟨Nat.le_refl 1, Nat.le_refl 1⟩

theorem IsCounted.after {position : Position} (counted : position.IsCounted) (character : Char)
    (following : Option Char) : (position.after character following).IsCounted := by
  unfold Position.after
  split
  · exact counted
  · split
    · exact ⟨Nat.le_add_left 1 _, Nat.le_refl 1⟩
    · exact ⟨counted.line, Nat.le_add_left 1 _⟩

/-- Where a place of a fragment is in the file, if the first character of the fragment stands at the
given position.  Only the first line of a fragment starts within a line of the file. -/
def movedTo (first position : Position) : Position :=
  if position.line = 1 then ⟨first.line + position.line - 1, first.column + position.column - 1⟩
  else ⟨first.line + position.line - 1, position.column⟩

@[simp]
theorem movedTo_start (first : Position) : first.movedTo start = first :=
  rfl

theorem movedTo_after (first : Position) {position : Position} (counted : position.IsCounted)
    (character : Char) (following : Option Char) :
    first.movedTo (position.after character following) =
      (first.movedTo position).after character following := by
  obtain ⟨line, column⟩ := position
  obtain ⟨atLine, atColumn⟩ : 1 ≤ line ∧ 1 ≤ column := ⟨counted.line, counted.column⟩
  unfold after
  split
  · rfl
  · split
    · have laterLine : line + 1 ≠ 1 := by omega
      have sameLine : first.line + (line + 1) - 1 = first.line + line - 1 + 1 := by omega
      simp only [nextLine, movedTo, if_neg laterLine, sameLine]
      split <;> rfl
    · have sameColumn : first.column + (column + 1) - 1 = first.column + column - 1 + 1 := by omega
      simp only [nextColumn, movedTo, sameColumn]
      split <;> rfl

theorem movedTo_past (first : Position) {position : Position} (counted : position.IsCounted)
    (following : Option Char) (text : List Char) :
    first.movedTo (position.past following text) = (first.movedTo position).past following text := by
  induction text generalizing position with
  | nil => rfl
  | cons character rest ih =>
      rw [past_cons, past_cons, ih (counted.after _ _), movedTo_after first counted]

theorem IsCounted.past {position : Position} (counted : position.IsCounted)
    (following : Option Char) (text : List Char) : (position.past following text).IsCounted := by
  induction text generalizing position with
  | nil => exact counted
  | cons character rest ih =>
      rw [past_cons]
      exact ih (counted.after _ _)

end Position

/-- A cursor stands where the text ends that it has passed. -/
theorem Cursor.Passes.position_eq {text : List Char} {start stop : Cursor}
    (passes : Passes text start stop) :
    stop.position = start.position.past stop.current? text := by
  induction passes with
  | done => rfl
  | @next character rest text start stop ahead later ih =>
      have following : rest.head? = text.head?.or stop.current? := by
        have aheadNext := later.ahead_eq
        rw [advance_of_ahead_cons ahead] at aheadNext
        rw [current?, ← List.head?_append, ← aheadNext]
      rw [ih, advance_of_ahead_cons ahead, Position.past_cons, following]

end TemplateMarkup
