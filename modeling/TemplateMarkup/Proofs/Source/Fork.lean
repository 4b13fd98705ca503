import TemplateMarkup.Proofs.Source.Passage

/-!
# Forks

Two sources may go on differently after a text that they share.  A reader that stays within the shared
text does the same in both, if nothing tells the two rests apart before it has read from them: both
are empty, both start with `>`, or both start with white space.  No word that a reader looks for goes
on after `>` or has white space in it, so no such word reaches across the fork.

Nothing is asked of what is behind the two cursors.  The readers that look back, at backslashes and at
a carriage return, do so only as far as a quote that they have passed themselves.
-/

namespace TemplateMarkup

open CharacterClass

/-- A class that holds white space either in full or not at all. -/
def IsUniform (belongs : Char → Bool) : Prop :=
  ∀ character ∈ ['\t', '\n', '\r', '\x0c'], belongs character = belongs ' '

instance (belongs : Char → Bool) : Decidable (IsUniform belongs) :=
  inferInstanceAs (Decidable (∀ _ ∈ _, _))

theorem IsUniform.eq {belongs : Char → Bool} (uniform : IsUniform belongs) {character : Char}
    (isSpace : isWhitespace character) : belongs character = belongs ' ' := by
  simp only [isWhitespace, isLineBreak, Bool.or_eq_true, beq_iff_eq] at isSpace
  rcases isSpace with (rfl | rfl) | ((rfl | rfl) | rfl)
  · rfl
  all_goals exact uniform _ (by decide)

theorem beq_eq_false_of_isWhitespace {visible character : Char}
    (isVisible : isWhitespace visible = false) (isSpace : isWhitespace character) :
    (character == visible) = false := by
  refine beq_false_of_ne ?_
  rintro rfl
  rw [isVisible] at isSpace
  cases isSpace

theorem isUniform_beq {visible : Char} (isVisible : isWhitespace visible = false) :
    IsUniform (· == visible) := by
  intro character member
  have isSpace : isWhitespace character := by
    revert character
    decide
  have onSpace : isWhitespace ' ' = true := rfl
  simp only [beq_eq_false_of_isWhitespace isVisible isSpace,
    beq_eq_false_of_isWhitespace isVisible onSpace]

/-- Rests that cannot be told apart before anything of them has been read. -/
inductive AreAlike : List Char → List Char → Prop where
  | ended : AreAlike [] []
  | angle (rest rest' : List Char) : AreAlike ('>' :: rest) ('>' :: rest')
  | space {first first' : Char} (isSpace : isWhitespace first) (isSpace' : isWhitespace first')
      (rest rest' : List Char) : AreAlike (first :: rest) (first' :: rest')

/-- A word that fits before alike rests or not at all: it has no white space, and no `>` but as its
last character. -/
def FitsBefore (word : List Char) : Prop :=
  (∀ character ∈ word, isWhitespace character = false) ∧ '>' ∉ word.dropLast

instance (word : List Char) : Decidable (FitsBefore word) :=
  inferInstanceAs (Decidable (_ ∧ _))

namespace AreAlike

variable {rest rest' : List Char}

theorem any_head?_append (alike : AreAlike rest rest') {belongs : Char → Bool}
    (uniform : IsUniform belongs) (text : List Char) :
    (text ++ rest').head?.any belongs = (text ++ rest).head?.any belongs := by
  cases text with
  | cons character text => rfl
  | nil =>
      cases alike with
      | ended => rfl
      | angle => rfl
      | space isSpace isSpace' =>
          exact (uniform.eq isSpace').trans (uniform.eq isSpace).symm

theorem isPrefixOf_append (alike : AreAlike rest rest') {word : List Char} (fits : FitsBefore word)
    (text : List Char) : word.isPrefixOf (text ++ rest') = word.isPrefixOf (text ++ rest) := by
  induction word generalizing text with
  | nil => rfl
  | cons first later ih =>
      obtain ⟨noSpace, noAngle⟩ := fits
      cases text with
      | cons character text =>
          have fitsLater : FitsBefore later := by
            refine ⟨fun other member => noSpace other (List.mem_cons_of_mem _ member), ?_⟩
            cases later with
            | nil => exact List.not_mem_nil
            | cons => exact List.not_mem_of_not_mem_cons noAngle
          rw [List.cons_append, List.cons_append, List.isPrefixOf, List.isPrefixOf, ih fitsLater]
      | nil =>
          cases alike with
          | ended => rfl
          | angle rest rest' =>
              cases later with
              | nil => simp [List.isPrefixOf]
              | cons =>
                  have other : (first == '>') = false :=
                    beq_false_of_ne (List.ne_of_not_mem_cons noAngle).symm
                  simp only [List.nil_append, List.isPrefixOf, other, Bool.false_and]
          | @space ahead ahead' isSpace isSpace' rest rest' =>
              have other {character : Char} (isSpace : isWhitespace character) :
                  (first == character) = false := by
                rw [Bool.beq_comm]
                exact beq_eq_false_of_isWhitespace (noSpace first (by simp)) isSpace
              simp only [List.nil_append, List.isPrefixOf, other isSpace, other isSpace',
                Bool.false_and]

/-- A word and the character after it. -/
theorem isPrefixOf_and_all_head?_append (alike : AreAlike rest rest') {word : List Char}
    (fits : ∀ character ∈ word, isWhitespace character = false ∧ character ≠ '>')
    {mayFollow : Char → Bool} (spaceMayFollow : ∀ character, isWhitespace character →
      mayFollow character)
    (text : List Char) :
    (word.isPrefixOf (text ++ rest') && ((text ++ rest').drop word.length).head?.all mayFollow) =
      (word.isPrefixOf (text ++ rest) && ((text ++ rest).drop word.length).head?.all mayFollow) := by
  induction word generalizing text with
  | nil =>
      cases text with
      | cons => rfl
      | nil =>
          cases alike with
          | ended => rfl
          | angle => rfl
          | space isSpace isSpace' =>
              simp [List.isPrefixOf, spaceMayFollow _ isSpace, spaceMayFollow _ isSpace']
  | cons first later ih =>
      cases text with
      | cons character text =>
          have later := ih (fun other member => fits other (List.mem_cons_of_mem _ member)) text
          simp only [List.cons_append, List.isPrefixOf, List.length_cons, List.drop_succ_cons,
            Bool.and_assoc, later]
      | nil =>
          obtain ⟨notSpace, notAngle⟩ := fits first (by simp)
          cases alike with
          | ended => rfl
          | angle =>
              have other : (first == '>') = false := beq_false_of_ne notAngle
              simp only [List.nil_append, List.isPrefixOf, other, Bool.false_and]
          | @space ahead ahead' isSpace isSpace' =>
              have other {character : Char} (isSpace : isWhitespace character) :
                  (first == character) = false := by
                rw [Bool.beq_comm]
                exact beq_eq_false_of_isWhitespace notSpace isSpace
              simp only [List.nil_append, List.isPrefixOf, other isSpace, other isSpace',
                Bool.false_and]

end AreAlike

/-- The rests of two sources after a text that they share. -/
structure Fork where
  rest : List Char
  rest' : List Char
  alike : AreAlike rest rest'

namespace Fork

open Cursor

variable {fork : Fork} {text read word : List Char} {halts : Cursor → Bool}
variable {cursor other start start' stop : Cursor}

/-- Both cursors have the same text ahead of them up to the fork. -/
def Relates (fork : Fork) (cursor other : Cursor) : Prop :=
  ∃ text, cursor.ahead = text ++ fork.rest ∧ other.ahead = text ++ fork.rest'

/-- The cursor has not gone beyond the fork. -/
def Precedes (fork : Fork) (cursor : Cursor) : Prop :=
  fork.rest.length ≤ cursor.remaining

theorem Precedes.of_le (within : fork.Precedes stop) (later : stop.remaining ≤ start.remaining) :
    fork.Precedes start :=
  Nat.le_trans within later

/-- Both sources are read over the same text to places before the fork. -/
structure Reads (fork : Fork) (read : List Char) (start start' stop stop' : Cursor) : Prop where
  passes : Passes read start stop
  passes' : Passes read start' stop'
  relates : fork.Relates stop stop'

theorem Reads.done (related : fork.Relates cursor other) :
    fork.Reads [] cursor other cursor other :=
  ⟨.done _, .done _, related⟩

theorem Reads.textSince_eq {stop' : Cursor} (reads : fork.Reads read start start' stop stop') :
    stop'.textSince start'.offset = stop.textSince start.offset := by
  rw [reads.passes.textSince_eq, reads.passes'.textSince_eq]

theorem exists_reads (related : fork.Relates start start') (passes : Passes read start stop)
    (within : fork.Precedes stop) : ∃ stop', fork.Reads read start start' stop stop' := by
  obtain ⟨text, ahead, ahead'⟩ := related
  have whole : read ++ stop.ahead = text ++ fork.rest := passes.ahead_eq.symm.trans ahead
  have inside : read.length ≤ text.length := by
    have lengths := congrArg List.length whole
    simp only [List.length_append] at lengths
    have := within
    unfold Precedes remaining at this
    omega
  obtain ⟨left, rfl⟩ := List.prefix_of_prefix_length_le (List.prefix_append read stop.ahead)
    (whole ▸ List.prefix_append text fork.rest) inside
  rw [List.append_assoc] at ahead' whole
  obtain ⟨stop', passes', aheadStop⟩ := exists_passes ahead'
  exact ⟨stop', passes, passes', left, List.append_cancel_left whole, aheadStop⟩

/-- Where a character of the shared text is ahead, it is ahead in both sources. -/
theorem Relates.cases (related : fork.Relates cursor other) :
    (cursor.ahead = fork.rest ∧ other.ahead = fork.rest') ∨
      ∃ character rest rest', cursor.ahead = character :: rest ∧ other.ahead = character :: rest' ∧
        fork.Relates cursor.advance other.advance := by
  obtain ⟨text, ahead, ahead'⟩ := related
  cases text with
  | nil => exact .inl ⟨ahead, ahead'⟩
  | cons character text =>
      refine .inr ⟨character, text ++ fork.rest, text ++ fork.rest', ahead, ahead', text, ?_, ?_⟩
      · rw [advance_of_ahead_cons ahead, List.append_eq]
      · rw [advance_of_ahead_cons ahead', List.append_eq]

theorem rest_eq_nil_iff : fork.rest = [] ↔ fork.rest' = [] := by
  obtain ⟨rest, rest', alike⟩ := fork
  cases alike <;> simp

theorem Relates.ahead_eq_nil_iff (related : fork.Relates cursor other) :
    other.ahead = [] ↔ cursor.ahead = [] := by
  obtain ⟨text, ahead, ahead'⟩ := related
  simp [ahead, ahead', rest_eq_nil_iff]

/-- A condition holds on both sides of the fork alike. -/
structure Alike (fork : Fork) (holds : Cursor → Bool) : Prop where
  eq : ∀ {cursor other}, fork.Relates cursor other → holds other = holds cursor

theorem isOn_eq {belongs : Char → Bool} (uniform : IsUniform belongs)
    (related : fork.Relates cursor other) : other.isOn belongs = cursor.isOn belongs := by
  obtain ⟨text, ahead, ahead'⟩ := related
  simp only [isOn, current?, ahead, ahead']
  exact fork.alike.any_head?_append uniform text

theorem startsWith_eq (fits : FitsBefore word) (related : fork.Relates cursor other) :
    other.startsWith word = cursor.startsWith word := by
  obtain ⟨text, ahead, ahead'⟩ := related
  simp only [startsWith, ahead, ahead']
  exact fork.alike.isPrefixOf_append fits text

namespace Alike

theorem not (alike : fork.Alike halts) : fork.Alike fun place => !halts place where
  eq related := congrArg Bool.not (alike.eq related)

theorem or {second : Cursor → Bool} (alike : fork.Alike halts) (alike' : fork.Alike second) :
    fork.Alike fun place => halts place || second place where
  eq related := by rw [alike.eq related, alike'.eq related]

theorem isOn {belongs : Char → Bool} (uniform : IsUniform belongs) :
    fork.Alike fun place => place.isOn belongs :=
  ⟨isOn_eq uniform⟩

theorem startsWith (fits : FitsBefore word) : fork.Alike fun place => place.startsWith word :=
  ⟨startsWith_eq fits⟩

end Alike

/-- Seeking goes the same way as long as it stays before the fork.  The condition may depend on what
is behind the cursors, if that stays alike as well. -/
theorem reads_seek_of (keeps : Cursor → Cursor → Prop)
    (kept : ∀ {cursor other character rest rest'}, keeps cursor other →
      cursor.ahead = character :: rest → other.ahead = character :: rest' →
        keeps cursor.advance other.advance)
    (alike : ∀ {cursor other}, fork.Relates cursor other → keeps cursor other →
      halts other = halts cursor)
    (related : fork.Relates cursor other) (holds : keeps cursor other)
    (within : fork.Precedes (cursor.seek halts)) :
    ∃ read, fork.Reads read cursor other (cursor.seek halts) (other.seek halts) := by
  induction size : cursor.remaining generalizing cursor other with
  | zero =>
      have atEnd : cursor.ahead = [] := List.length_eq_zero_iff.mp size
      rw [seek_of_ahead_nil atEnd, seek_of_ahead_nil (related.ahead_eq_nil_iff.mpr atEnd)]
      exact ⟨[], .done related⟩
  | succ count ih =>
      cases halted : halts cursor with
      | true =>
          rw [seek_of_halts halted, seek_of_halts ((alike related holds).trans halted)]
          exact ⟨[], .done related⟩
      | false =>
          have goesOn := (alike related holds).trans halted
          rw [seek_of_not_halts halted] at within ⊢
          rw [seek_of_not_halts goesOn]
          have shorter : cursor.advance.remaining = count := by
            simp only [remaining, ahead_advance, List.length_tail] at size ⊢
            omega
          rcases related.cases with ⟨atFork, -⟩ | ⟨character, rest, rest', ahead, ahead', next⟩
          · -- From the fork itself every step leads beyond it.
            have beyond := Nat.le_trans within (remaining_seek_le cursor.advance halts)
            rw [shorter, ← atFork] at beyond
            simp only [remaining] at size
            omega
          · obtain ⟨read, reads⟩ := ih next (kept holds ahead ahead') within shorter
            exact ⟨character :: read, .next ahead reads.passes, .next ahead' reads.passes',
              reads.relates⟩

theorem reads_seek (alike : fork.Alike halts) (related : fork.Relates cursor other)
    (within : fork.Precedes (cursor.seek halts)) :
    ∃ read, fork.Reads read cursor other (cursor.seek halts) (other.seek halts) :=
  reads_seek_of (fun _ _ => True) (fun _ _ _ => trivial)
    (fun related _ => alike.eq related) related trivial within

theorem relates_seek (alike : fork.Alike halts) (related : fork.Relates cursor other)
    (within : fork.Precedes (cursor.seek halts)) :
    fork.Relates (cursor.seek halts) (other.seek halts) := by
  obtain ⟨_, reads⟩ := reads_seek alike related within
  exact reads.relates

theorem relates_advance (related : fork.Relates cursor other)
    (within : fork.Precedes cursor.advance) : fork.Relates cursor.advance other.advance := by
  cases ahead : cursor.ahead with
  | nil =>
      rw [advance_of_ahead_nil ahead, advance_of_ahead_nil (related.ahead_eq_nil_iff.mpr ahead)]
      exact related
  | cons character rest =>
      obtain ⟨stop', reads⟩ := exists_reads related (.one ahead) within
      cases reads.passes' with
      | next _ later =>
          cases later
          exact reads.relates

variable (word) in
theorem relates_advanceBy_length (related : fork.Relates cursor other)
    (isAhead : cursor.startsWith word) (within : fork.Precedes (advanceBy word.length cursor)) :
    fork.Relates (advanceBy word.length cursor) (advanceBy word.length other) := by
  obtain ⟨rest, ahead⟩ := List.isPrefixOf_iff_prefix.mp isAhead
  obtain ⟨stop', reads⟩ := exists_reads related (passes_advanceBy ahead.symm) within
  exact reads.passes'.eq_advanceBy ▸ reads.relates

theorem relates_skip (fits : FitsBefore word) (related : fork.Relates cursor other)
    (within : fork.Precedes (cursor.skip word)) :
    fork.Relates (cursor.skip word) (other.skip word) := by
  unfold skip at *
  rw [startsWith_eq fits related]
  split at within
  · next isAhead =>
      rw [if_pos isAhead, if_pos isAhead]
      exact relates_advanceBy_length word related isAhead within
  · next notAhead =>
      rw [if_neg notAhead, if_neg notAhead]
      exact related

end Fork

end TemplateMarkup
