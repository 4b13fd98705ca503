import TemplateMarkup.Proofs.Markup.Course

/-!
# What a text run says

A text run is read piece by piece, and the comments between the pieces are passed over.  Its text is
what the source has there without its comments, and nothing else is added to it or missing from it.
-/

namespace TemplateMarkup

open CharacterClass

/-- What follows a comment, given what follows its opener.  Nothing follows a comment without an
end. -/
def afterComment : List Char → List Char
  | [] => []
  | character :: rest =>
      if Cursor.commentCloser.isPrefixOf (character :: rest) then
        rest.drop (Cursor.commentCloser.length - 1)
      else
        afterComment rest

theorem length_afterComment_le (text : List Char) : (afterComment text).length ≤ text.length := by
  induction text with
  | nil => exact Nat.le_refl _
  | cons character rest ih =>
      rw [afterComment]
      split
      · rw [List.length_drop, List.length_cons]
        omega
      · exact Nat.le_succ_of_le ih

/-- A text without the comments in it. -/
def withoutComments : List Char → List Char
  | [] => []
  | character :: rest =>
      if Cursor.commentOpener.isPrefixOf (character :: rest) then
        withoutComments (afterComment (rest.drop (Cursor.commentOpener.length - 1)))
      else
        character :: withoutComments rest
termination_by text => text.length
decreasing_by
  · have shorter := length_afterComment_le (rest.drop (Cursor.commentOpener.length - 1))
    rw [List.length_drop] at shorter
    rw [List.length_cons]
    omega
  · exact Nat.lt_succ_self _

namespace Cursor

/-- Two texts between the same places are the same. -/
theorem Passes.text_unique {text other : List Char} {start stop : Cursor}
    (passes : Passes text start stop) (passes' : Passes other start stop) : text = other :=
  passes.textSince_eq.symm.trans passes'.textSince_eq

/-- A word that is not ahead does not start the text that is passed next. -/
theorem isPrefixOf_passed {word passed more rest : List Char} {start stop : Cursor}
    (passes : Passes passed start stop) (ahead : stop.ahead = more ++ rest)
    (notAhead : start.startsWith word = false) : word.isPrefixOf (passed ++ more) = false := by
  rw [Bool.eq_false_iff] at notAhead ⊢
  intro isPrefix
  refine notAhead ?_
  rw [startsWith, passes.ahead_eq, ahead, ← List.append_assoc, List.isPrefixOf_iff_prefix]
  exact (List.isPrefixOf_iff_prefix.mp isPrefix).trans (List.prefix_append _ _)

/-- What follows the opener of a comment and is read with it is not part of what follows the
comment. -/
theorem afterComment_append {cursor : Cursor} {passed more rest : List Char}
    (passes : Passes passed cursor
      ((cursor.seek (·.startsWith commentCloser)).skip commentCloser))
    (ahead : ((cursor.seek (·.startsWith commentCloser)).skip commentCloser).ahead = more ++ rest) :
    afterComment (passed ++ more) = more := by
  induction pending : cursor.ahead generalizing cursor passed with
  | nil =>
      have stays : (cursor.seek (·.startsWith commentCloser)).skip commentCloser = cursor := by
        rw [seek_of_ahead_nil pending, skip, startsWith, pending]
        rfl
      rw [stays] at passes ahead
      obtain ⟨rfl, -⟩ := List.append_eq_nil_iff.mp (ahead.symm.trans pending)
      rw [passes.text_unique (.done cursor)]
      rfl
  | cons character tail ih =>
      cases halted : cursor.startsWith commentCloser with
      | true =>
          rw [seek_of_halts halted] at passes
          rw [passes.text_unique (passes_skip halted)]
          rfl
      | false =>
          have sought : cursor.seek (·.startsWith commentCloser) =
              cursor.advance.seek (·.startsWith commentCloser) := seek_of_not_halts halted
          rw [sought] at passes ahead
          obtain ⟨passed', passes'⟩ := (leadsTo_seek cursor.advance (·.startsWith commentCloser)).trans
            (leadsTo_skip _ commentCloser)
          have notCloser := isPrefixOf_passed passes ahead halted
          have whole := passes.text_unique (.next pending passes')
          subst whole
          rw [List.cons_append] at notCloser ⊢
          rw [afterComment, if_neg (by simp [notCloser])]
          exact ih passes' ahead (by rw [advance_of_ahead_cons pending])

/-- A text run is what is written there without comments. -/
theorem readTextPieces_fst_eq {cursor : Cursor} {written : List Char}
    (passes : Passes written cursor cursor.readTextPieces.2) :
    cursor.readTextPieces.1 = withoutComments written := by
  -- Not only single characters are passed over but whole comments, so the induction is on what is left.
  induction left : cursor.remaining using Nat.strong_induction_on generalizing cursor written with
  | _ bound ih =>
      by_cases isComment : cursor.isCommentAhead
      · obtain ⟨inner, overInner⟩ := (leadsTo_seek (cursor.skip commentOpener)
          (·.startsWith commentCloser)).trans (leadsTo_skip _ commentCloser)
        obtain ⟨later, overLater⟩ := leadsTo_readText cursor.skipComment
        have follows := afterComment_append overInner overLater.ahead_eq
        rw [readTextPieces_at_comment isComment] at passes ⊢
        have whole := passes.text_unique (((passes_skip isComment).trans overInner).trans overLater)
        have shorter := remaining_skipComment_lt isComment
        rw [ih _ (left ▸ shorter) overLater rfl, whole, List.append_assoc]
        show _ = withoutComments ('<' :: '!' :: '-' :: '-' :: (inner ++ later))
        rw [withoutComments, if_pos (by simp [commentOpener])]
        exact congrArg withoutComments follows.symm
      · by_cases atTag : cursor.IsAtTag
        · rw [readTextPieces_at_tag atTag] at passes ⊢
          rw [passes.text_unique (.done cursor), withoutComments]
        · obtain ⟨notAtEnd, notOpening, notClosing⟩ : cursor.ahead ≠ [] ∧
              cursor.isOpeningTagAhead = false ∧ cursor.isClosingTagAhead = false := by
            simpa [IsAtTag] using atTag
          obtain ⟨character, rest, ahead⟩ := List.exists_cons_of_ne_nil notAtEnd
          have notComment : cursor.isCommentAhead = false := by simpa using isComment
          have goesOn : cursor.endsTextPiece = false := by
            simp [endsTextPiece, notOpening, notClosing, notComment]
          have notOpener := isPrefixOf_passed passes (List.nil_append _).symm notComment
          obtain ⟨later, overLater⟩ := leadsTo_readText cursor.advance
          rw [readTextPieces_of_character ahead goesOn] at passes ⊢
          have whole := passes.text_unique (.next ahead overLater)
          subst whole
          rw [List.append_nil] at notOpener
          rw [withoutComments, if_neg (by simp [notOpener])]
          exact congrArg (character :: ·)
            (ih _ (left ▸ remaining_advance_lt notAtEnd) overLater rfl)

/-- A text run ends at a tag or at the end of the source. -/
theorem isAtTag_readText (cursor : Cursor) : cursor.readText.2.IsAtTag := by
  show cursor.readTextPieces.2.IsAtTag
  fun_induction readTextPieces cursor with
  | case1 cursor pieceEnd piece isComment later ih => exact ih
  | case2 cursor pieceEnd piece notComment =>
      rcases ahead_seek_eq_nil_or_halts cursor endsTextPiece with atEnd | halted
      · exact .inl atEnd
      · have notComment : pieceEnd.isCommentAhead = false := by simpa using notComment
        refine .inr ?_
        have halted : pieceEnd.endsTextPiece := halted
        rw [endsTextPiece, notComment, Bool.or_false, Bool.or_eq_true] at halted
        exact halted

end Cursor

end TemplateMarkup
