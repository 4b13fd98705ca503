import TemplateMarkup.Proofs.Markup.Course

/-!
# Comments say nothing

A comment may be put anywhere into a text run, inside a word as well, without a change to what the
source says.  The text before it and the text after it are rejoined before anything is done to the
white space of the run.
-/

namespace TemplateMarkup

namespace Cursor

variable {comment after : List Char} {cursor : Cursor}

/-- No closer starts within the text of a comment, and the closer after it begins at its end. -/
theorem not_startsWith_closer {read rest : List Char} {character : Char}
    (noCloser : ¬ commentCloser <:+: read ++ character :: rest)
    (ahead : cursor.ahead = character :: (rest ++ after))
    (ends : after = [] ∨ commentCloser <+: after) : cursor.startsWith commentCloser = false := by
  rw [Bool.eq_false_iff]
  intro isAhead
  have isAhead : commentCloser <+: character :: (rest ++ after) :=
    ahead ▸ List.isPrefixOf_iff_prefix.mp isAhead
  rcases ends with rfl | ⟨tail, rfl⟩
  · rw [List.append_nil] at isAhead
    exact noCloser (isAhead.isInfix.trans (List.suffix_append read _).isInfix)
  · -- A closer takes three characters: it lies in the comment or meets a dash where it needs a `>`.
    rcases rest with _ | ⟨second, _ | ⟨third, rest⟩⟩
    · simp [commentCloser] at isAhead
    · simp [commentCloser] at isAhead
    · refine noCloser ⟨read, rest, ?_⟩
      obtain ⟨left, whole⟩ := isAhead
      simp only [commentCloser, String.reduceToList, List.cons_append, List.nil_append,
        List.cons.injEq] at whole ⊢
      obtain ⟨rfl, rfl, rfl, -⟩ := whole
      simp

/-- A comment is passed over together with its closer, or up to the end of the input. -/
theorem ahead_skipComment_of_ahead (noCloser : ¬ commentCloser <:+: comment)
    (ahead : cursor.ahead = commentOpener ++ (comment ++ after)) :
    (after = [] → cursor.skipComment.ahead = []) ∧
      ∀ tail, after = commentCloser ++ tail → cursor.skipComment.ahead = tail := by
  have opened : (cursor.skip commentOpener).ahead = comment ++ after := by
    rw [skip, if_pos (startsWith_of_ahead ahead), ahead_advanceBy, ahead, List.drop_left]
  obtain ⟨place, passes, aheadPlace⟩ := exists_passes opened
  have commentEnd (ends : after = [] ∨ commentCloser <+: after) : cursor.commentEnd = place := by
    refine passes.seek_eq ?_ ?_
    · intro read middle character rest split passed
      have aheadMiddle := passes.ahead_of_split split passed
      rw [aheadPlace] at aheadMiddle
      exact not_startsWith_closer (split ▸ noCloser) aheadMiddle ends
    · rw [aheadPlace]
      refine ends.imp_right fun isCloser => ?_
      rw [startsWith, aheadPlace, List.isPrefixOf_iff_prefix]
      exact isCloser
  constructor
  · intro atEnd
    show (cursor.commentEnd.skip commentCloser).ahead = []
    have nothing : place.ahead = [] := aheadPlace.trans atEnd
    rw [commentEnd (.inl atEnd), skip, if_neg (by simp [startsWith, nothing, commentCloser]),
      nothing]
  · intro tail isCloser
    refine ahead_skipComment ?_
    rw [commentEnd (.inr ⟨tail, isCloser.symm⟩), aheadPlace, isCloser]

end Cursor

/-- A comment put into a text run changes nothing but positions.  At the end of the source it does not
need its closer. -/
theorem Template.parse_insertComment {before after comment : String} {tokens : List Token}
    {text : List Char} {start : Position} {place : Cursor} (sourcePath : Option String)
    (reached : (Cursor.atStart (before ++ after) start).Reaches tokens text place)
    (atBoundary : place.ahead = after.toList) (noCloser : ¬ "-->".toList <:+: comment.toList) :
    AgreeUnplaced (parse (before ++ "<!--" ++ comment ++ "-->" ++ after) start sourcePath)
        (parse (before ++ after) start sourcePath) ∧
      (after = "" →
        AgreeUnplaced (parse (before ++ "<!--" ++ comment) start sourcePath)
          (parse (before ++ after) start sourcePath)) := by
  have ahead : (Cursor.atStart (before ++ after) start).ahead = before.toList ++ place.ahead := by
    simp [Cursor.atStart, atBoundary]
  have apart (rest : List Char) : Cursor.StandsApart (Cursor.commentOpener ++ rest) := by
    simp [Cursor.StandsApart, Cursor.commentOpener]
    decide
  -- From the boundary on, the comment is passed over and the rest is read as before.
  have agree {source : String} (rest : List Char)
      (isSource : source.toList = before.toList ++ (Cursor.commentOpener ++ rest))
      (skips : ∀ other : Cursor, other.ahead = Cursor.commentOpener ++ rest →
        other.skipComment.ahead = place.ahead) :
      AgreeUnplaced (parse source start sourcePath) (parse (before ++ after) start sourcePath) := by
    have ahead' : (Cursor.atStart source start).ahead =
        before.toList ++ (Cursor.commentOpener ++ rest) := isSource
    obtain ⟨tokens', place', reached', same, aheadComment⟩ :=
      reached.exists_of_ahead (apart rest) ahead ahead'
    have atComment : place'.isCommentAhead := Cursor.startsWith_of_ahead aheadComment
    obtain ⟨pieces, ends⟩ := Cursor.readTextPieces_of_ahead_eq (skips place' aheadComment)
    rw [← Cursor.readTextPieces_at_comment atComment] at pieces ends
    exact agreeUnplaced_of_unplacedTokens
      (reached.unplacedTokens_congr reached' same pieces ends) sourcePath
  constructor
  · refine agree (comment.toList ++ (Cursor.commentCloser ++ after.toList)) ?_ ?_
    · simp [Cursor.commentOpener, Cursor.commentCloser]
    · intro other aheadOther
      rw [atBoundary]
      exact (Cursor.ahead_skipComment_of_ahead noCloser aheadOther).2 after.toList rfl
  · rintro rfl
    refine agree (comment.toList ++ []) ?_ ?_
    · simp [Cursor.commentOpener]
    · intro other aheadOther
      rw [atBoundary]
      exact (Cursor.ahead_skipComment_of_ahead noCloser aheadOther).1 rfl

/-- A comment that looks like a tag, between the two halves of a line ending. -/
theorem Template.parse_insertComment_inLineEnding :
    (∃ tokens text, ∃ place : Cursor,
      (Cursor.atStart ("<pre>a\r" ++ "\nb</pre>") .start).Reaches tokens text place ∧
        place.ahead = "\nb</pre>".toList) ∧
      ¬ "-->".toList <:+: "- <b> --".toList ∧
      AgreeUnplaced
        (parse ("<pre>a\r" ++ "<!--" ++ "- <b> --" ++ "-->" ++ "\nb</pre>") .start none)
        (parse ("<pre>a\r" ++ "\nb</pre>") .start none) := by
  let start := Cursor.atStart ("<pre>a\r" ++ "\nb</pre>") .start
  have opened : start.readText.2.readElementStart.2.ahead =
      "a\r".toList ++ "\nb</pre>".toList := by decide +kernel
  obtain ⟨place, passes, atBoundary⟩ := Cursor.exists_passes opened
  have reached : start.Reaches _ _ place :=
    ⟨_, .opening (by decide +kernel) (by decide +kernel) (.done _), passes.readsText (by decide)⟩
  have noCloser : ¬ "-->".toList <:+: "- <b> --".toList := by decide
  exact ⟨⟨_, _, place, reached, atBoundary⟩, noCloser,
    (parse_insertComment none reached atBoundary noCloser).1⟩

end TemplateMarkup
