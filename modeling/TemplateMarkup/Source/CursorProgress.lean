import TemplateMarkup.Source.Cursor

/-!
# Progress of cursors

What is left after each move.  No move gives characters back, so a reader that is sure to take one
step has less to read afterwards.
-/

namespace TemplateMarkup

namespace Cursor

def remaining (cursor : Cursor) : Nat := cursor.ahead.length

theorem ahead_advance (cursor : Cursor) : cursor.advance.ahead = cursor.ahead.tail := by
  unfold advance
  split <;> simp_all

theorem ahead_advanceBy (count : Nat) (cursor : Cursor) :
    (advanceBy count cursor).ahead = cursor.ahead.drop count := by
  induction count generalizing cursor with
  | zero => rfl
  | succ count ih =>
      unfold advanceBy
      split
      · next atEnd =>
          have empty : cursor.ahead = [] := by simpa [isAtEnd] using atEnd
          simp [empty]
      · rw [ih, ahead_advance, List.drop_tail]

theorem ahead_seekWithin_suffix (stop : Cursor → Bool) (bound : List Char) (cursor : Cursor) :
    (seekWithin stop bound cursor).ahead <:+ cursor.ahead := by
  induction bound generalizing cursor with
  | nil => exact List.suffix_refl _
  | cons _ rest ih =>
      unfold seekWithin
      split
      · exact List.suffix_refl _
      · refine (ih cursor.advance).trans ?_
        rw [ahead_advance]
        exact List.tail_suffix _

theorem remaining_advance_le (cursor : Cursor) : cursor.advance.remaining ≤ cursor.remaining := by
  simp [remaining, ahead_advance]

theorem remaining_advance_lt {cursor : Cursor} (notAtEnd : cursor.ahead ≠ []) :
    cursor.advance.remaining < cursor.remaining := by
  have positive := List.length_pos_iff.mpr notAtEnd
  simp only [remaining, ahead_advance, List.length_tail]
  omega

theorem remaining_advanceBy (count : Nat) (cursor : Cursor) :
    (advanceBy count cursor).remaining = cursor.remaining - count := by
  simp [remaining, ahead_advanceBy]

theorem remaining_seek_le (cursor : Cursor) (stop : Cursor → Bool) :
    (cursor.seek stop).remaining ≤ cursor.remaining :=
  (ahead_seekWithin_suffix stop cursor.ahead cursor).length_le

theorem remaining_skip_le (cursor : Cursor) (text : List Char) :
    (cursor.skip text).remaining ≤ cursor.remaining := by
  unfold skip
  split
  · rw [remaining_advanceBy]
    omega
  · exact Nat.le_refl _

theorem remaining_skip_lt {cursor : Cursor} {text : List Char} (isAhead : cursor.startsWith text)
    (nonempty : text ≠ []) : (cursor.skip text).remaining < cursor.remaining := by
  have prefixed : text <+: cursor.ahead := List.isPrefixOf_iff_prefix.mp isAhead
  have shorter : text.length ≤ cursor.remaining := prefixed.length_le
  have positive := List.length_pos_iff.mpr nonempty
  rw [skip, if_pos isAhead, remaining_advanceBy]
  omega

theorem remaining_skipWhile_le (cursor : Cursor) (belongs : Char → Bool) :
    (cursor.skipWhile belongs).remaining ≤ cursor.remaining :=
  remaining_seek_le cursor _

theorem remaining_skipWhitespace_le (cursor : Cursor) :
    cursor.skipWhitespace.remaining ≤ cursor.remaining :=
  remaining_seek_le cursor _

theorem remaining_skipPast_le (cursor : Cursor) (character : Char) :
    (cursor.skipPast character).remaining ≤ cursor.remaining :=
  Nat.le_trans (remaining_advance_le _) (remaining_seek_le cursor _)

theorem ahead_ne_nil_of_isOn {cursor : Cursor} {belongs : Char → Bool}
    (isOn : cursor.isOn belongs) : cursor.ahead ≠ [] := by
  intro empty
  simp [Cursor.isOn, current?, empty] at isOn

theorem remaining_skipWhile_lt {cursor : Cursor} {belongs : Char → Bool}
    (isOn : cursor.isOn belongs) : (cursor.skipWhile belongs).remaining < cursor.remaining := by
  have notAtEnd := ahead_ne_nil_of_isOn isOn
  unfold skipWhile seek
  cases pending : cursor.ahead with
  | nil => exact absurd pending notAtEnd
  | cons character rest =>
      rw [seekWithin, if_neg (by simp [isOn])]
      refine Nat.lt_of_le_of_lt ?_ (remaining_advance_lt notAtEnd)
      exact (ahead_seekWithin_suffix _ _ _).length_le

end Cursor

end TemplateMarkup
