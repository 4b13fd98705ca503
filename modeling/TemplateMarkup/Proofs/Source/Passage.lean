import Mathlib.Data.List.Induction
import TemplateMarkup.Source.CursorProgress

/-!
# Passages of a cursor

A reader moves a cursor over some text.  What was passed over determines everything about the place
it comes to, apart from what it was at the beginning: what is ahead and behind, how many bytes have
been read, and the text that a reader cuts out of the source afterwards.

Readers look for the end of a passage with `seek`.  The second part says when a passage is the one
that `seek` takes.
-/

namespace TemplateMarkup

/-- The number of bytes of a text. -/
def byteLength : List Char → Nat
  | [] => 0
  | character :: rest => character.utf8Size + byteLength rest

theorem byteLength_append (first second : List Char) :
    byteLength (first ++ second) = byteLength first + byteLength second := by
  induction first with
  | nil => simp [byteLength]
  | cons character rest ih => simp [byteLength, ih, Nat.add_assoc]

namespace Cursor

/-- Reading a text leads from one cursor to another. -/
inductive Passes : List Char → Cursor → Cursor → Prop where
  | done (cursor : Cursor) : Passes [] cursor cursor
  | next {character : Char} {rest text : List Char} {start stop : Cursor} :
      start.ahead = character :: rest → Passes text start.advance stop →
        Passes (character :: text) start stop

theorem advance_of_ahead_cons {cursor : Cursor} {character : Char} {rest : List Char}
    (ahead : cursor.ahead = character :: rest) :
    cursor.advance =
      { behind := character :: cursor.behind
        ahead := rest
        offset := cursor.offset + character.utf8Size
        position := cursor.position.after character rest.head? } := by
  unfold advance
  rw [ahead]

theorem advance_of_ahead_nil {cursor : Cursor} (ahead : cursor.ahead = []) :
    cursor.advance = cursor := by
  unfold advance
  rw [ahead]

namespace Passes

variable {text more : List Char} {start middle stop : Cursor}

theorem one {character : Char} {rest : List Char} {cursor : Cursor}
    (ahead : cursor.ahead = character :: rest) : Passes [character] cursor cursor.advance :=
  .next ahead (.done _)

theorem trans (first : Passes text start middle) (second : Passes more middle stop) :
    Passes (text ++ more) start stop := by
  induction first with
  | done => exact second
  | next ahead _ ih => exact .next ahead (ih second)

theorem ahead_eq (passes : Passes text start stop) : start.ahead = text ++ stop.ahead := by
  induction passes with
  | done => rfl
  | next ahead _ ih =>
      rw [advance_of_ahead_cons ahead] at ih
      rw [ahead, List.cons_append]
      exact congrArg _ ih

theorem behind_eq (passes : Passes text start stop) :
    stop.behind = text.reverse ++ start.behind := by
  induction passes with
  | done => rfl
  | next ahead _ ih =>
      rw [ih, advance_of_ahead_cons ahead]
      simp

theorem offset_eq (passes : Passes text start stop) :
    stop.offset = start.offset + byteLength text := by
  induction passes with
  | done => rfl
  | next ahead _ ih =>
      rw [ih, advance_of_ahead_cons ahead, byteLength, Nat.add_assoc]

theorem eq_advanceBy (passes : Passes text start stop) :
    stop = advanceBy text.length start := by
  induction passes with
  | done => rfl
  | next ahead _ ih =>
      rw [List.length_cons, advanceBy, if_neg (by simp [isAtEnd, ahead])]
      exact ih

/-- A text leads to one place only. -/
theorem unique {other : Cursor} (first : Passes text start stop) (second : Passes text start other) :
    stop = other :=
  first.eq_advanceBy.trans second.eq_advanceBy.symm

end Passes

/-- Every text that is ahead can be passed. -/
theorem passes_advanceBy {text rest : List Char} {cursor : Cursor}
    (ahead : cursor.ahead = text ++ rest) :
    Passes text cursor (advanceBy text.length cursor) := by
  induction text generalizing cursor with
  | nil => exact .done _
  | cons character text ih =>
      rw [List.length_cons, advanceBy, if_neg (by simp [isAtEnd, ahead])]
      exact .next ahead (ih (by rw [advance_of_ahead_cons ahead]; rfl))

theorem exists_passes {text rest : List Char} {cursor : Cursor}
    (ahead : cursor.ahead = text ++ rest) :
    ∃ stop, Passes text cursor stop ∧ stop.ahead = rest := by
  have passes := passes_advanceBy ahead
  exact ⟨_, passes, List.append_cancel_left (passes.ahead_eq.symm.trans ahead)⟩

theorem passes_skip {word : List Char} {cursor : Cursor} (isAhead : cursor.startsWith word) :
    Passes word cursor (cursor.skip word) := by
  obtain ⟨rest, ahead⟩ := List.isPrefixOf_iff_prefix.mp isAhead
  rw [skip, if_pos isAhead]
  exact passes_advanceBy ahead.symm

theorem takeBytesBack_reverse (text behind taken : List Char) :
    takeBytesBack (byteLength text) (text.reverse ++ behind) taken = text ++ taken := by
  induction text using List.reverseRecOn generalizing behind taken with
  | nil =>
      cases behind with
      | nil => rfl
      | cons => rfl
  | append_singleton text character ih =>
      obtain ⟨bytes, size⟩ : ∃ bytes, character.utf8Size = bytes + 1 :=
        ⟨_, (Nat.succ_pred_eq_of_pos character.utf8Size_pos).symm⟩
      have length : byteLength (text ++ [character]) = byteLength text + bytes + 1 := by
        rw [byteLength_append, byteLength, byteLength, size, Nat.add_zero, Nat.add_assoc]
      rw [length, List.reverse_append, List.reverse_singleton, List.singleton_append,
        List.cons_append, takeBytesBack]
      have left : byteLength text + bytes + 1 - character.utf8Size = byteLength text := by omega
      rw [left, ih, List.append_assoc, List.singleton_append]

/-- What is cut out after a passage is what was passed. -/
theorem Passes.textSince_eq {text : List Char} {start stop : Cursor}
    (passes : Passes text start stop) : stop.textSince start.offset = text := by
  rw [textSince, passes.behind_eq, passes.offset_eq, Nat.add_sub_cancel_left,
    takeBytesBack_reverse, List.append_nil]

variable {halts : Cursor → Bool} {cursor : Cursor}

theorem seek_of_ahead_nil (ahead : cursor.ahead = []) : cursor.seek halts = cursor := by
  rw [seek, ahead, seekWithin]

theorem seek_of_halts (halted : halts cursor) : cursor.seek halts = cursor := by
  cases ahead : cursor.ahead with
  | nil => exact seek_of_ahead_nil ahead
  | cons => rw [seek, ahead, seekWithin, if_pos halted]

theorem seek_of_not_halts (goesOn : halts cursor = false) :
    cursor.seek halts = cursor.advance.seek halts := by
  cases ahead : cursor.ahead with
  | nil => rw [advance_of_ahead_nil ahead]
  | cons character rest =>
      rw [seek, ahead, seekWithin, if_neg (by simp [goesOn]), advance_of_ahead_cons ahead, seek]

/-- Seeking ends at the end of the source, or at a place that halts it. -/
theorem ahead_seek_eq_nil_or_halts (cursor : Cursor) (halts : Cursor → Bool) :
    (cursor.seek halts).ahead = [] ∨ halts (cursor.seek halts) := by
  induction pending : cursor.ahead generalizing cursor with
  | nil =>
      rw [seek_of_ahead_nil pending]
      exact .inl pending
  | cons character rest ih =>
      cases halted : halts cursor with
      | true =>
          rw [seek_of_halts halted]
          exact .inr halted
      | false =>
          rw [seek_of_not_halts halted]
          exact ih cursor.advance (by rw [advance_of_ahead_cons pending])

/-- What is ahead of a place on the way. -/
theorem Passes.ahead_of_split {text read rest : List Char} {character : Char}
    {start stop place : Cursor} (passes : Passes text start stop)
    (split : text = read ++ character :: rest) (passed : Passes read start place) :
    place.ahead = character :: (rest ++ stop.ahead) := by
  have whole := passes.ahead_eq.symm.trans passed.ahead_eq
  rw [split, List.append_assoc] at whole
  exact (List.append_cancel_left whole).symm

/-- A passage is the one that `seek` takes if no place on the way halts it and the last one does. -/
theorem Passes.seek_eq {text : List Char} {start stop : Cursor} (passes : Passes text start stop)
    (goesOn : ∀ {read place character rest}, text = read ++ character :: rest →
      Passes read start place → halts place = false)
    (ends : stop.ahead = [] ∨ halts stop) : start.seek halts = stop := by
  induction passes with
  | done cursor =>
      rcases ends with atEnd | halted
      · exact seek_of_ahead_nil atEnd
      · exact seek_of_halts halted
  | next ahead _ ih =>
      rw [seek_of_not_halts (goesOn (List.nil_append _).symm (.done _))]
      refine ih (fun split passed => ?_) ends
      exact goesOn (by rw [split, List.cons_append]) (.next ahead passed)

theorem Passes.seek_of_cons {character : Char} {text : List Char}
    (passes : Passes (character :: text) cursor (cursor.seek halts)) :
    halts cursor = false ∧ Passes text cursor.advance (cursor.advance.seek halts) := by
  have goesOn : halts cursor = false := by
    rw [Bool.eq_false_iff]
    intro halted
    rw [seek_of_halts halted] at passes
    have tooLong := congrArg List.length passes.ahead_eq
    simp only [List.length_append, List.length_cons] at tooLong
    omega
  rw [seek_of_not_halts goesOn] at passes
  cases passes with
  | next _ later => exact ⟨goesOn, later⟩

/-- No place before the one that is sought halts. -/
theorem Passes.not_halts {text read rest : List Char} {character : Char} {place : Cursor}
    (passes : Passes text cursor (cursor.seek halts)) (split : text = read ++ character :: rest)
    (passed : Passes read cursor place) : halts place = false := by
  induction passed generalizing text with
  | done =>
      rw [List.nil_append] at split
      exact (split ▸ passes).seek_of_cons.1
  | next _ _ ih =>
      rw [List.cons_append] at split
      exact ih (split ▸ passes).seek_of_cons.2 rfl

theorem isOn_of_ahead_cons {belongs : Char → Bool} {character : Char} {rest : List Char}
    (ahead : cursor.ahead = character :: rest) : cursor.isOn belongs = belongs character := by
  simp [isOn, current?, ahead]

theorem isOn_of_ahead_nil {belongs : Char → Bool} (ahead : cursor.ahead = []) :
    cursor.isOn belongs = false := by
  simp [isOn, current?, ahead]

/-- A passage over characters of a class that stops before another character. -/
theorem Passes.skipWhile_eq {text : List Char} {start stop : Cursor} {belongs : Char → Bool}
    (passes : Passes text start stop) (inClass : ∀ character ∈ text, belongs character)
    (ends : stop.isOn belongs = false) : start.skipWhile belongs = stop := by
  refine passes.seek_eq ?_ (.inr (by simp [ends]))
  intro read place character rest split passed
  have member : character ∈ text := by simp [split]
  simp [isOn_of_ahead_cons (passes.ahead_of_split split passed), inClass character member]

/-- What is read while looking for a character of another class is in the class. -/
theorem Passes.belongs_of_seek {text : List Char} {belongs : Char → Bool}
    (passes : Passes text cursor (cursor.seek halts))
    (halts_eq : ∀ {place : Cursor} {character rest}, place.ahead = character :: rest →
      halts place = !belongs character) : ∀ character ∈ text, belongs character := by
  induction text generalizing cursor with
  | nil => simp
  | cons character text ih =>
      obtain ⟨goesOn, later⟩ := passes.seek_of_cons
      rw [halts_eq passes.ahead_eq, Bool.not_eq_false'] at goesOn
      intro other member
      rcases List.mem_cons.mp member with rfl | member
      · exact goesOn
      · exact ih later other member

theorem Passes.belongs_of_skipWhile {text : List Char} {belongs : Char → Bool}
    (passes : Passes text cursor (cursor.skipWhile belongs)) :
    ∀ character ∈ text, belongs character :=
  passes.belongs_of_seek fun ahead => congrArg (!·) (isOn_of_ahead_cons ahead)

end Cursor

end TemplateMarkup
