import TemplateMarkup.Proofs.Source.Passage
import TemplateMarkup.Proofs.Text.LineEndings

/-!
# Corresponding cursors

Two sources that differ in their line endings, or in where they stand, are read in the same steps.  A
correspondence relates the places of the one source to those of the other.  It is kept by every
character that is passed, so that it is enough to know of a reader which places halt it: they have to
be the same in both sources, and none of them may lie between a carriage return and its line feed.
-/

namespace TemplateMarkup

open CharacterClass

/-- A relation between the places of two sources that is kept while both are read. -/
structure Correspondence where
  /-- How the second source writes the line feeds of the first. -/
  ending : LineEnding
  Relates : Cursor → Cursor → Prop
  ahead_eq : ∀ {cursor other}, Relates cursor other → other.ahead = ending.write cursor.ahead
  backslashesBehind_eq : ∀ {cursor other}, Relates cursor other →
    other.backslashesBehind = cursor.backslashesBehind
  afterReturn_eq : ∀ {cursor other}, Relates cursor other →
    (other.previous? == some '\r') = (cursor.previous? == some '\r')
  /-- Where line feeds are written in pairs, none of them is in a pair already. -/
  not_afterReturn : ∀ {cursor other}, ending = .pair → Relates cursor other →
    cursor.previous? ≠ some '\r'
  exists_step : ∀ {cursor other character rest}, Relates cursor other →
    cursor.ahead = character :: rest →
      ∃ place, Cursor.Passes (ending.letters character) other place ∧ Relates cursor.advance place

namespace Correspondence

open Cursor

variable {same : Correspondence} {text : List Char}
variable {cursor other start start' stop stop' : Cursor}

/-- Both sources are read from corresponding places to corresponding places. -/
structure Reads (same : Correspondence) (text : List Char) (start start' stop stop' : Cursor) :
    Prop where
  passes : Passes text start stop
  passes' : Passes (same.ending.write text) start' stop'
  relates : same.Relates stop stop'

namespace Reads

theorem done (related : same.Relates cursor other) : same.Reads [] cursor other cursor other :=
  ⟨.done _, .done _, related⟩

theorem textSince_eq (reads : same.Reads text start start' stop stop') :
    stop.textSince start.offset = text ∧
      stop'.textSince start'.offset = same.ending.write text :=
  ⟨reads.passes.textSince_eq, reads.passes'.textSince_eq⟩

end Reads

theorem exists_reads (passes : Passes text start stop) (related : same.Relates start start') :
    ∃ stop', same.Reads text start start' stop stop' := by
  induction passes generalizing start' with
  | done => exact ⟨start', .done related⟩
  | @next character rest text start stop ahead _ ih =>
      obtain ⟨place, passed, relatedNext⟩ := same.exists_step related ahead
      obtain ⟨stop', reads⟩ := ih relatedNext
      refine ⟨stop', .next ahead reads.passes, ?_, reads.relates⟩
      rw [LineEnding.write_cons]
      exact passed.trans reads.passes'

theorem ahead_eq_nil_iff (related : same.Relates cursor other) :
    other.ahead = [] ↔ cursor.ahead = [] := by
  rw [same.ahead_eq related, LineEnding.write_eq_nil_iff]

/-- The same character is ahead, unless it is a line feed. -/
theorem current?_cases (related : same.Relates cursor other) :
    other.current? = cursor.current? ∧ cursor.current? ≠ some '\n' ∨
      cursor.current? = some '\n' ∧
        (other.current? = some '\n' ∨ other.current? = some '\r') := by
  unfold current?
  rw [same.ahead_eq related]
  cases cursor.ahead with
  | nil => exact .inl ⟨rfl, nofun⟩
  | cons character rest =>
      by_cases lineFeed : character = '\n'
      · subst lineFeed
        refine .inr ⟨rfl, ?_⟩
        cases same.ending with
        | lineFeed => exact .inl rfl
        | pair => exact .inr rfl
      · rw [LineEnding.write_cons_of_ne _ lineFeed]
        exact .inl ⟨rfl, fun onLineFeed => lineFeed (Option.some.inj onLineFeed)⟩

theorem relates_advance (related : same.Relates cursor other)
    (notLineFeed : cursor.current? ≠ some '\n') : same.Relates cursor.advance other.advance := by
  cases ahead : cursor.ahead with
  | nil =>
      rw [advance_of_ahead_nil ahead,
        advance_of_ahead_nil ((ahead_eq_nil_iff related).mpr ahead)]
      exact related
  | cons character rest =>
      have single : character ≠ '\n' := by
        rintro rfl
        exact notLineFeed (by simp [current?, ahead])
      obtain ⟨place, passes, relatedNext⟩ := same.exists_step related ahead
      rw [LineEnding.letters_of_ne _ single] at passes
      have aheadOther : other.ahead = character :: same.ending.write rest := by
        rw [same.ahead_eq related, ahead, LineEnding.write_cons_of_ne _ single]
      exact passes.unique (.one aheadOther) ▸ relatedNext

/-- A condition holds at corresponding places alike, and at all line feeds alike. -/
structure Alike (same : Correspondence) (holds : Cursor → Bool) : Prop where
  eq : ∀ {cursor other}, same.Relates cursor other → holds other = holds cursor
  atLineFeed : ∀ {cursor other rest rest'}, cursor.ahead = '\n' :: rest →
    other.ahead = '\n' :: rest' → holds cursor = holds other

theorem isOn_eq {belongs : Char → Bool} (alike : belongs '\r' = belongs '\n')
    (related : same.Relates cursor other) : other.isOn belongs = cursor.isOn belongs := by
  unfold isOn current?
  rw [same.ahead_eq related, LineEnding.any_head?_write _ alike]

theorem startsWith_eq {word : List Char} (noLineFeed : '\n' ∉ word) (noReturn : '\r' ∉ word)
    (related : same.Relates cursor other) : other.startsWith word = cursor.startsWith word := by
  unfold startsWith
  rw [same.ahead_eq related, LineEnding.isPrefixOf_write _ noLineFeed noReturn]

theorem isEscaped_eq (related : same.Relates cursor other) : other.isEscaped = cursor.isEscaped := by
  unfold isEscaped
  rw [same.backslashesBehind_eq related]

namespace Alike

variable {first second : Cursor → Bool}

theorem not (alike : same.Alike first) : same.Alike fun place => !first place where
  eq related := congrArg Bool.not (alike.eq related)
  atLineFeed here there := congrArg Bool.not (alike.atLineFeed here there)

theorem or (alike : same.Alike first) (alike' : same.Alike second) :
    same.Alike fun place => first place || second place where
  eq related := by rw [alike.eq related, alike'.eq related]
  atLineFeed here there := by rw [alike.atLineFeed here there, alike'.atLineFeed here there]

theorem isOn {belongs : Char → Bool} (alike : belongs '\r' = belongs '\n') :
    same.Alike fun place => place.isOn belongs where
  eq related := isOn_eq alike related
  atLineFeed here there := by rw [isOn_of_ahead_cons here, isOn_of_ahead_cons there]

theorem startsWith {first : Char} {later : List Char} (noLineFeed : '\n' ∉ first :: later)
    (noReturn : '\r' ∉ first :: later) :
    same.Alike fun place => place.startsWith (first :: later) where
  eq related := startsWith_eq noLineFeed noReturn related
  atLineFeed here there := by
    have absent : (first == '\n') = false :=
      beq_false_of_ne (List.ne_of_not_mem_cons noLineFeed).symm
    show (first :: later).isPrefixOf _ = (first :: later).isPrefixOf _
    rw [here, there, List.isPrefixOf, List.isPrefixOf, absent, Bool.false_and, Bool.false_and]

/-- A condition on a character that is no line break may also ask for what is behind it. -/
theorem isOn_and_not_isEscaped {quote : Char} (notLineFeed : quote ≠ '\n')
    (notReturn : quote ≠ '\r') :
    same.Alike fun place => place.isOn (· == quote) && !place.isEscaped where
  eq related := by
    rw [isOn_eq (by simp [notLineFeed.symm, notReturn.symm]) related, isEscaped_eq related]
  atLineFeed here there := by
    have absent : ('\n' == quote) = false := beq_false_of_ne notLineFeed.symm
    rw [isOn_of_ahead_cons here, isOn_of_ahead_cons there, absent, Bool.false_and, Bool.false_and]

end Alike

theorem seek_eq_of_step {halts : Cursor → Bool} {character : Char} {rest : List Char}
    {place : Cursor} (alike : same.Alike halts) (related : same.Relates cursor other)
    (ahead : cursor.ahead = character :: rest) (goesOn : halts cursor = false)
    (passes : Passes (same.ending.letters character) other place) :
    other.seek halts = place.seek halts := by
  have goesOnToo : halts other = false := (alike.eq related).trans goesOn
  rw [seek_of_not_halts goesOnToo]
  by_cases single : same.ending.letters character = [character]
  · rw [single] at passes
    cases passes with
    | next _ later =>
        cases later
        rfl
  · obtain ⟨isPair, rfl⟩ := LineEnding.pair_of_letters_ne single
    rw [isPair] at passes
    -- The line feed of a pair does not halt either, since the line feed alone does not.
    cases passes with
    | next _ later =>
        cases later with
        | next aheadLineFeed later =>
            cases later
            exact seek_of_not_halts ((alike.atLineFeed aheadLineFeed ahead).trans goesOn)

theorem reads_seek {halts : Cursor → Bool} (alike : same.Alike halts)
    (related : same.Relates cursor other) :
    ∃ text, same.Reads text cursor other (cursor.seek halts) (other.seek halts) := by
  induction pending : cursor.ahead generalizing cursor other with
  | nil =>
      rw [seek_of_ahead_nil pending, seek_of_ahead_nil ((ahead_eq_nil_iff related).mpr pending)]
      exact ⟨[], .done related⟩
  | cons character rest ih =>
      cases halted : halts cursor with
      | true =>
          rw [seek_of_halts halted, seek_of_halts ((alike.eq related).trans halted)]
          exact ⟨[], .done related⟩
      | false =>
          obtain ⟨place, passes, relatedNext⟩ := same.exists_step related pending
          obtain ⟨text, reads⟩ := ih relatedNext (by rw [advance_of_ahead_cons pending])
          refine ⟨character :: text, ?_⟩
          rw [seek_of_not_halts halted, seek_eq_of_step alike related pending halted passes]
          refine ⟨.next pending reads.passes, ?_, reads.relates⟩
          rw [LineEnding.write_cons]
          exact passes.trans reads.passes'

theorem reads_skipWhile {belongs : Char → Bool} (alike : belongs '\r' = belongs '\n')
    (related : same.Relates cursor other) :
    ∃ text, same.Reads text cursor other (cursor.skipWhile belongs) (other.skipWhile belongs) :=
  reads_seek (Alike.isOn alike).not related

theorem relates_skip {word : List Char} (noLineFeed : '\n' ∉ word) (noReturn : '\r' ∉ word)
    (related : same.Relates cursor other) : same.Relates (cursor.skip word) (other.skip word) := by
  unfold skip
  rw [startsWith_eq noLineFeed noReturn related]
  split
  · next isAhead =>
      obtain ⟨rest, ahead⟩ := List.isPrefixOf_iff_prefix.mp isAhead
      obtain ⟨place, reads⟩ := exists_reads (passes_advanceBy ahead.symm) related
      have passes := reads.passes'
      rw [LineEnding.write_eq_self _ noLineFeed] at passes
      exact passes.eq_advanceBy ▸ reads.relates
  · exact related

/-- Seeking something that is no line feed, and reading one character of it. -/
theorem relates_seek_advance {halts : Cursor → Bool} (alike : same.Alike halts)
    (visible : ∀ place : Cursor, place.current? = some '\n' → halts place = false)
    (related : same.Relates cursor other) :
    same.Relates (cursor.seek halts).advance (other.seek halts).advance := by
  obtain ⟨_, reads⟩ := reads_seek alike related
  refine relates_advance reads.relates fun onLineFeed => ?_
  rcases ahead_seek_eq_nil_or_halts cursor halts with atEnd | halted
  · simp [current?, atEnd] at onLineFeed
  · rw [visible _ onLineFeed] at halted
    cases halted

theorem relates_skipPast {character : Char} (notLineFeed : character ≠ '\n')
    (notReturn : character ≠ '\r') (related : same.Relates cursor other) :
    same.Relates (cursor.skipPast character) (other.skipPast character) := by
  refine relates_seek_advance (.isOn ?_) (fun place onLineFeed => ?_) related
  · rw [beq_false_of_ne notLineFeed.symm, beq_false_of_ne notReturn.symm]
  · rw [Cursor.isOn, onLineFeed]
    exact beq_false_of_ne notLineFeed.symm

end Correspondence

end TemplateMarkup
