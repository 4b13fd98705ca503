import Mathlib.Order.Defs.PartialOrder
import TemplateMarkup.Proofs.Markup.Passage
import TemplateMarkup.Proofs.Source.Placement

/-!
# Positions in order

Positions come by their lines, and on one line by their columns.  A cursor never goes back.  It goes
forward whenever it passes a character other than a carriage return: after a carriage return it may
stand where it has stood before, if the line feed of the same line break is ahead.
-/

namespace TemplateMarkup

namespace Position

instance : LE Position where
  le first second :=
    first.line < second.line ∨ first.line = second.line ∧ first.column ≤ second.column

instance : LT Position where
  lt first second :=
    first.line < second.line ∨ first.line = second.line ∧ first.column < second.column

theorem le_iff {first second : Position} : first ≤ second ↔
    first.line < second.line ∨ first.line = second.line ∧ first.column ≤ second.column :=
  Iff.rfl

theorem lt_iff {first second : Position} : first < second ↔
    first.line < second.line ∨ first.line = second.line ∧ first.column < second.column :=
  Iff.rfl

instance : Preorder Position where
  le_refl position := .inr ⟨rfl, Nat.le_refl _⟩
  le_trans first second third := by
    simp only [le_iff]
    omega
  lt_iff_le_not_ge first second := by
    simp only [le_iff, lt_iff]
    omega

theorem lt_of_compare {first second : Position} (isLess : compare first second = .lt) :
    first < second :=
  compare_eq_lt_iff.mp isLess

end Position

namespace Cursor

variable {text : List Char} {start stop : Cursor}

namespace Passes

/-- Only a carriage return before a line feed does not lead forward. -/
theorem position_lt_or (passes : Passes text start stop) : start.position < stop.position ∨
    start.position = stop.position ∧ (text = [] ∨ text = ['\r'] ∧ stop.current? = some '\n') := by
  rw [passes.position_eq]
  by_cases isEmpty : text = []
  · subst isEmpty
    exact .inr ⟨rfl, .inl rfl⟩
  · have moves : compare start.position (start.position.past stop.current? text) = .lt ∨
        text = ['\r'] ∧ stop.current? = some '\n' := start.position.compare_past isEmpty
    refine moves.imp Position.lt_of_compare fun beforeLineFeed => ⟨?_, .inr beforeLineFeed⟩
    rw [beforeLineFeed.1, beforeLineFeed.2]
    rfl

theorem position_le (passes : Passes text start stop) : start.position ≤ stop.position := by
  rcases passes.position_lt_or with forward | ⟨stays, -⟩
  · exact le_of_lt forward
  · exact le_of_eq stays

theorem position_lt (passes : Passes text start stop) {character : Char} (member : character ∈ text)
    (notReturn : character ≠ '\r') : start.position < stop.position := by
  refine passes.position_lt_or.resolve_right ?_
  rintro ⟨-, rfl | ⟨rfl, -⟩⟩
  · cases member
  · exact notReturn (List.mem_singleton.mp member)

end Passes

namespace LeadsTo

theorem position_le (leads : LeadsTo start stop) : start.position ≤ stop.position := by
  obtain ⟨text, passes⟩ := leads
  exact passes.position_le

/-- Whoever reads on from a character other than a carriage return comes forward. -/
theorem position_lt (leads : LeadsTo start stop) (moved : stop.remaining < start.remaining)
    {belongs : Char → Bool} (isOn : start.isOn belongs) (notReturn : belongs '\r' = false) :
    start.position < stop.position := by
  obtain ⟨text, passes⟩ := leads
  cases passes with
  | done => exact absurd moved (Nat.lt_irrefl _)
  | @next character rest text _ _ ahead later =>
      rw [isOn_of_ahead_cons ahead] at isOn
      refine (Passes.next ahead later).position_lt List.mem_cons_self ?_
      rintro rfl
      exact Bool.false_ne_true (notReturn.symm.trans isOn)

end LeadsTo

end Cursor

end TemplateMarkup
