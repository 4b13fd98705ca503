import TemplateMarkup.Glob.Basic

/-!
# What glob patterns match

A token covers certain texts of bytes, and a sequence of tokens covers what its tokens cover one after
the other.  The places of a text are marked where a pattern can have come after it has covered all that
is before the place, so a pattern matches exactly the texts that it covers.
-/

namespace TemplateMarkup

namespace Marks

/-- The place after a start of the text is marked. -/
def Reaches (marks : Marks) (passed : List UInt8) : Prop := marks[passed.length]? = some true

/-- The start of the text ends with a text of some kind, and the place before that is marked. -/
def ReachesOver (marks : Marks) (covered : List UInt8 → Prop) (passed : List UInt8) : Prop :=
  ∃ before bytes, passed = before ++ bytes ∧ marks.Reaches before ∧ covered bytes

/-- There is a mark, set or not, for every place of the text. -/
def Fits (marks : Marks) (text : List UInt8) : Prop := marks.length = text.length + 1

variable {marks first second : Marks} {text passed : List UInt8}

theorem fits_atStart (text : List UInt8) : (atStart text).Fits text := by
  simp [Fits, atStart]

theorem fits_union (fits : first.Fits text) (fits' : second.Fits text) :
    (first.union second).Fits text := by
  rw [Fits] at fits fits' ⊢
  rw [union, List.length_zipWith, fits, fits', Nat.min_self]

theorem fits_pastByte (fits : marks.Fits text) (condition : UInt8 → Bool) :
    (marks.pastByte text condition).Fits text := by
  rw [Fits] at fits ⊢
  rw [pastByte, List.length_cons, List.length_zipWith, fits]
  omega

theorem length_onward (marks : Marks) : marks.onward.length = marks.length := by
  induction marks with
  | nil => rfl
  | cons isMarked rest ih => cases isMarked <;> simp [onward, ih]

theorem fits_onward (fits : marks.Fits text) : marks.onward.Fits text :=
  (length_onward marks).trans fits

theorem fits_clear (fits : marks.Fits text) : marks.clear.Fits text :=
  (List.length_map _).trans fits

theorem reaches_atStart : (atStart text).Reaches passed ↔ passed = [] := by
  rw [Reaches, atStart]
  cases passed with
  | nil => simp
  | cons byte rest =>
      rw [List.length_cons, List.getElem?_cons_succ, List.getElem?_map]
      cases text[rest.length]? <;> simp

theorem not_reaches_clear : ¬ marks.clear.Reaches passed := by
  rw [Reaches, clear, List.getElem?_map]
  cases marks[passed.length]? <;> simp

theorem exists_getElem? (fits : marks.Fits text) (isStart : passed <+: text) :
    ∃ isMarked, marks[passed.length]? = some isMarked := by
  have short := isStart.length_le
  rw [Fits] at fits
  exact ⟨_, List.getElem?_eq_getElem (by omega)⟩

theorem reaches_union (fits : first.Fits text) (fits' : second.Fits text)
    (isStart : passed <+: text) :
    (first.union second).Reaches passed ↔ first.Reaches passed ∨ second.Reaches passed := by
  obtain ⟨isFirst, isMarked⟩ := exists_getElem? fits isStart
  obtain ⟨isSecond, isMarked'⟩ := exists_getElem? fits' isStart
  simp [Reaches, union, List.getElem?_zipWith, isMarked, isMarked']

/-- A byte that satisfies the condition is passed. -/
theorem reaches_pastByte {condition : UInt8 → Bool} (isStart : passed <+: text) :
    (marks.pastByte text condition).Reaches passed ↔
      marks.ReachesOver (fun bytes => ∃ byte, bytes = [byte] ∧ condition byte) passed := by
  rcases List.eq_nil_or_concat passed with rfl | ⟨before, byte, split⟩
  · simp [Reaches, pastByte, ReachesOver]
  · rw [List.concat_eq_append] at split
    subst split
    have isByte : text[before.length]? = some byte := by
      obtain ⟨rest, rfl⟩ := isStart
      simp
    have isMarked : (marks.pastByte text condition).Reaches (before ++ [byte]) ↔
        marks.Reaches before ∧ condition byte := by
      rw [Reaches, Reaches, pastByte, List.length_append, List.length_singleton,
        List.getElem?_cons_succ, List.getElem?_zipWith, isByte]
      cases marks[before.length]? <;> simp
    rw [isMarked]
    constructor
    · rintro ⟨reached, satisfies⟩
      exact ⟨before, [byte], rfl, reached, byte, rfl, satisfies⟩
    · rintro ⟨before', _, split, reached, byte', rfl, satisfies⟩
      obtain ⟨rfl, same⟩ := List.append_inj' split rfl
      cases same
      exact ⟨reached, satisfies⟩

theorem getElem?_onward {place : Nat} : marks.onward[place]? = some true ↔
    place < marks.length ∧ ∃ earlier, earlier ≤ place ∧ marks[earlier]? = some true := by
  induction marks generalizing place with
  | nil => simp [onward]
  | cons isMarked rest ih =>
      cases place with
      | zero => simp [onward]
      | succ place =>
          rw [onward, List.getElem?_cons_succ, List.length_cons, Nat.add_lt_add_iff_right]
          cases isMarked with
          | true =>
              have isFirst : ∃ earlier, earlier ≤ place + 1 ∧
                  (true :: rest)[earlier]? = some true := ⟨0, Nat.zero_le _, rfl⟩
              rw [if_pos rfl, List.map_const', List.getElem?_replicate]
              simp [isFirst]
          | false =>
              rw [if_neg Bool.false_ne_true, ih]
              refine and_congr_right fun _ => ⟨?_, ?_⟩
              · rintro ⟨earlier, isBefore, earlierMarked⟩
                exact ⟨earlier + 1, Nat.succ_le_succ isBefore, earlierMarked⟩
              · rintro ⟨earlier, isBefore, earlierMarked⟩
                cases earlier with
                | zero => cases earlierMarked
                | succ earlier => exact ⟨earlier, Nat.le_of_succ_le_succ isBefore, earlierMarked⟩

/-- Any text can be passed. -/
theorem reaches_onward (fits : marks.Fits text) (isStart : passed <+: text) :
    marks.onward.Reaches passed ↔ marks.ReachesOver (fun _ => True) passed := by
  have inText : passed.length < marks.length := by
    have short := isStart.length_le
    rw [Fits] at fits
    omega
  rw [Reaches, getElem?_onward]
  constructor
  · rintro ⟨-, earlier, isBefore, isMarked⟩
    refine ⟨passed.take earlier, passed.drop earlier, (List.take_append_drop _ _).symm, ?_, trivial⟩
    rw [Reaches, List.length_take, Nat.min_eq_left isBefore]
    exact isMarked
  · rintro ⟨before, bytes, rfl, isMarked, -⟩
    exact ⟨inText, before.length, by simp, isMarked⟩

theorem atEnd_iff (fits : marks.Fits text) : marks.atEnd ↔ marks.Reaches text := by
  rw [Fits] at fits
  rw [atEnd, beq_iff_eq, Reaches, List.getLast?_eq_getElem?, fits, Nat.add_sub_cancel]

variable {covered covered' : List UInt8 → Prop}

/-- One text after the other. -/
theorem reachesOver_append {later : Marks} (isStart : passed <+: text)
    (reached : ∀ {before}, before <+: text →
      (later.Reaches before ↔ marks.ReachesOver covered before)) :
    later.ReachesOver covered' passed ↔ marks.ReachesOver
      (fun bytes => ∃ front back, bytes = front ++ back ∧ covered front ∧ covered' back) passed := by
  constructor
  · rintro ⟨before, back, rfl, isMarked, isCovered'⟩
    obtain ⟨start, front, rfl, isMarked, isCovered⟩ :=
      (reached ((List.prefix_append _ _).trans isStart)).mp isMarked
    exact ⟨start, front ++ back, by simp, isMarked, front, back, rfl, isCovered, isCovered'⟩
  · rintro ⟨start, _, rfl, isMarked, front, back, rfl, isCovered, isCovered'⟩
    refine ⟨start ++ front, back, by simp, ?_, isCovered'⟩
    rw [← List.append_assoc] at isStart
    exact (reached ((List.prefix_append _ _).trans isStart)).mpr
      ⟨start, front, rfl, isMarked, isCovered⟩

theorem reachesOver_congr (same : ∀ bytes, covered bytes ↔ covered' bytes) :
    marks.ReachesOver covered passed ↔ marks.ReachesOver covered' passed := by
  simp only [ReachesOver, same]

theorem reachesOver_or : marks.ReachesOver covered passed ∨ marks.ReachesOver covered' passed ↔
    marks.ReachesOver (fun bytes => covered bytes ∨ covered' bytes) passed := by
  simp only [ReachesOver, and_or_left, exists_or]

theorem reachesOver_nil : marks.ReachesOver (· = []) passed ↔ marks.Reaches passed := by
  constructor
  · rintro ⟨before, _, rfl, isMarked, rfl⟩
    rwa [List.append_nil]
  · intro isMarked
    exact ⟨passed, [], (List.append_nil _).symm, isMarked, rfl⟩

end Marks

namespace GlobToken

mutual

/-- The token goes over exactly these bytes. -/
def Covers : GlobToken → List UInt8 → Prop
  | literal character, bytes => bytes = String.utf8EncodeChar character
  | anyByte, bytes => ∃ byte, bytes = [byte]
  | anything, _ => True
  | leadingDirectories, bytes => bytes = [] ∨ ∃ front, bytes = front ++ [0x2F]
  | belowDirectory, bytes => ∃ back, bytes = 0x2F :: back
  | throughDirectories, bytes => bytes = [0x2F] ∨ ∃ between, bytes = 0x2F :: between ++ [0x2F]
  | oneOf isNegated ranges, bytes => ∃ byte, bytes = [byte] ∧ isInRanges ranges byte ≠ isNegated
  | alternatives branches, bytes =>
      if noneCounts branches then bytes = [] else CoversAny branches bytes

/-- The tokens go over exactly these bytes, one after the other. -/
def CoversAll : List GlobToken → List UInt8 → Prop
  | [], bytes => bytes = []
  | token :: rest, bytes =>
      ∃ front back, bytes = front ++ back ∧ token.Covers front ∧ CoversAll rest back

/-- A branch that counts goes over exactly these bytes. -/
def CoversAny : List (List GlobToken) → List UInt8 → Prop
  | [], _ => False
  | branch :: rest, bytes =>
      (allVacuous branch = false ∧ CoversAll branch bytes) ∨ CoversAny rest bytes

end

section

variable {text passed : List UInt8} {marks : Marks}

theorem isSlash_iff {byte : UInt8} : isSlash byte ↔ byte = 0x2F := by
  rw [isSlash, beq_iff_eq]

/-- The bytes of a word are passed one by one. -/
theorem reaches_word {word : List UInt8} (fits : marks.Fits text) (isStart : passed <+: text) :
    (word.foldl (fun marks byte => marks.pastByte text (· == byte)) marks).Reaches passed ↔
      marks.ReachesOver (· = word) passed := by
  induction word generalizing marks with
  | nil => exact Marks.reachesOver_nil.symm
  | cons byte rest ih =>
      rw [List.foldl_cons, ih (Marks.fits_pastByte fits _),
        Marks.reachesOver_append isStart Marks.reaches_pastByte]
      refine Marks.reachesOver_congr fun bytes => ?_
      simp

theorem fits_word {word : List UInt8} (fits : marks.Fits text) :
    Marks.Fits (word.foldl (fun marks byte => marks.pastByte text (· == byte)) marks) text := by
  induction word generalizing marks with
  | nil => exact fits
  | cons byte rest ih => exact ih (Marks.fits_pastByte fits _)

mutual

theorem fits_move : (token : GlobToken) → {marks : Marks} → marks.Fits text →
    (move text token marks).Fits text
  | literal character, marks, fits => by
      rw [move]
      exact fits_word fits
  | anyByte, marks, fits => by
      rw [move]
      exact Marks.fits_pastByte fits _
  | anything, marks, fits => by
      rw [move]
      exact Marks.fits_onward fits
  | leadingDirectories, marks, fits => by
      rw [move]
      exact Marks.fits_union fits (Marks.fits_pastByte (Marks.fits_onward fits) _)
  | belowDirectory, marks, fits => by
      rw [move]
      exact Marks.fits_onward (Marks.fits_pastByte fits _)
  | throughDirectories, marks, fits => by
      rw [move]
      have past := Marks.fits_pastByte fits isSlash
      exact Marks.fits_union past (Marks.fits_pastByte (Marks.fits_onward past) _)
  | oneOf isNegated ranges, marks, fits => by
      rw [move]
      exact Marks.fits_pastByte fits _
  | alternatives branches, marks, fits => by
      rw [move]
      split
      · exact fits
      · exact fits_moveAny branches fits

theorem fits_moveAll : (tokens : List GlobToken) → {marks : Marks} → marks.Fits text →
    (moveAll text tokens marks).Fits text
  | [], marks, fits => by
      rw [moveAll]
      exact fits
  | token :: rest, marks, fits => by
      rw [moveAll]
      exact fits_moveAll rest (fits_move token fits)

theorem fits_moveAny : (branches : List (List GlobToken)) → {marks : Marks} → marks.Fits text →
    (moveAny text branches marks).Fits text
  | [], marks, fits => by
      rw [moveAny]
      exact Marks.fits_clear fits
  | branch :: rest, marks, fits => by
      rw [moveAny]
      split
      · exact fits_moveAny rest fits
      · exact Marks.fits_union (fits_moveAll branch fits) (fits_moveAny rest fits)

end

mutual

/-- A token moves a mark over exactly what it covers. -/
theorem reaches_move : (token : GlobToken) → {marks : Marks} → marks.Fits text →
    {passed : List UInt8} → passed <+: text →
      ((move text token marks).Reaches passed ↔ marks.ReachesOver token.Covers passed)
  | literal character, marks, fits, passed, isStart => by
      rw [move, reaches_word fits isStart]
      rfl
  | anyByte, marks, fits, passed, isStart => by
      rw [move, Marks.reaches_pastByte isStart]
      refine Marks.reachesOver_congr fun bytes => ?_
      simp [Covers]
  | anything, marks, fits, passed, isStart => by
      rw [move, Marks.reaches_onward fits isStart]
      rfl
  | leadingDirectories, marks, fits, passed, isStart => by
      have further := Marks.fits_pastByte (Marks.fits_onward fits) isSlash
      rw [move, Marks.reaches_union fits further isStart, Marks.reaches_pastByte isStart,
        Marks.reachesOver_append isStart (Marks.reaches_onward fits), ← Marks.reachesOver_nil,
        Marks.reachesOver_or]
      refine Marks.reachesOver_congr fun bytes => ?_
      simp [Covers, isSlash_iff]
  | belowDirectory, marks, fits, passed, isStart => by
      have past := Marks.fits_pastByte fits isSlash
      rw [move, Marks.reaches_onward past isStart,
        Marks.reachesOver_append isStart Marks.reaches_pastByte]
      refine Marks.reachesOver_congr fun bytes => ?_
      simp [Covers, isSlash_iff]
  | throughDirectories, marks, fits, passed, isStart => by
      have past := Marks.fits_pastByte fits isSlash
      have further := Marks.fits_pastByte (Marks.fits_onward past) isSlash
      have onward {before : List UInt8} (isStart : before <+: text) :=
        (Marks.reaches_onward past isStart).trans
          (Marks.reachesOver_append isStart Marks.reaches_pastByte)
      rw [move, Marks.reaches_union past further isStart, Marks.reaches_pastByte isStart,
        Marks.reaches_pastByte isStart, Marks.reachesOver_append isStart onward, Marks.reachesOver_or]
      refine Marks.reachesOver_congr fun bytes => ?_
      simp only [Covers, isSlash_iff]
      refine or_congr (by simp) ⟨?_, ?_⟩
      · rintro ⟨_, _, rfl, ⟨_, between, rfl, ⟨_, rfl, rfl⟩, -⟩, _, rfl, rfl⟩
        exact ⟨between, rfl⟩
      · rintro ⟨between, rfl⟩
        exact ⟨0x2F :: between, [0x2F], rfl, ⟨[0x2F], between, rfl, ⟨_, rfl, rfl⟩, trivial⟩,
          _, rfl, rfl⟩
  | oneOf isNegated ranges, marks, fits, passed, isStart => by
      rw [move, Marks.reaches_pastByte isStart]
      refine Marks.reachesOver_congr fun bytes => ?_
      simp [Covers]
  | alternatives branches, marks, fits, passed, isStart => by
      rw [move]
      split
      · next none =>
          rw [← Marks.reachesOver_nil]
          refine Marks.reachesOver_congr fun bytes => ?_
          rw [Covers, if_pos none]
      · next some =>
          rw [reaches_moveAny branches fits isStart]
          refine Marks.reachesOver_congr fun bytes => ?_
          rw [Covers, if_neg some]

theorem reaches_moveAll : (tokens : List GlobToken) → {marks : Marks} → marks.Fits text →
    {passed : List UInt8} → passed <+: text →
      ((moveAll text tokens marks).Reaches passed ↔ marks.ReachesOver (CoversAll tokens) passed)
  | [], marks, fits, passed, isStart => by
      rw [moveAll, ← Marks.reachesOver_nil]
      rfl
  | token :: rest, marks, fits, passed, isStart => by
      rw [moveAll, reaches_moveAll rest (fits_move token fits) isStart,
        Marks.reachesOver_append isStart (reaches_move token fits)]
      rfl

theorem reaches_moveAny : (branches : List (List GlobToken)) → {marks : Marks} → marks.Fits text →
    {passed : List UInt8} → passed <+: text →
      ((moveAny text branches marks).Reaches passed ↔ marks.ReachesOver (CoversAny branches) passed)
  | [], marks, fits, passed, isStart => by
      rw [moveAny]
      refine iff_of_false Marks.not_reaches_clear ?_
      rintro ⟨_, _, _, _, none⟩
      exact none
  | branch :: rest, marks, fits, passed, isStart => by
      rw [moveAny]
      split
      · next isVacuous =>
          rw [reaches_moveAny rest fits isStart]
          refine Marks.reachesOver_congr fun bytes => ?_
          simp [CoversAny, isVacuous]
      · next counts =>
          rw [Marks.reaches_union (fits_moveAll branch fits) (fits_moveAny rest fits) isStart,
            reaches_moveAll branch fits isStart, reaches_moveAny rest fits isStart,
            Marks.reachesOver_or]
          refine Marks.reachesOver_congr fun bytes => ?_
          simp [CoversAny, counts]

end

end

end GlobToken

namespace Glob

/-- A pattern that needs no file name matches what its tokens cover. -/
theorem isMatch_iff {tokens : List GlobToken} (notAlone : tokens ≠ [.leadingDirectories])
    (noFileName : needsFileName tokens = false) (text : String) :
    isMatch ⟨tokens⟩ text ↔
      GlobToken.CoversAll tokens (text.toList.flatMap String.utf8EncodeChar) := by
  have fits := Marks.fits_atStart (text.toList.flatMap String.utf8EncodeChar)
  rw [isMatch]
  split
  · next alone => exact absurd alone notAlone
  · dsimp only
    rw [noFileName, Bool.false_and, Bool.not_false, Bool.true_and,
      Marks.atEnd_iff (GlobToken.fits_moveAll tokens fits),
      GlobToken.reaches_moveAll tokens fits List.prefix_rfl]
    constructor
    · rintro ⟨before, bytes, isText, isStart, covers⟩
      rw [Marks.reaches_atStart.mp isStart, List.nil_append] at isText
      exact isText ▸ covers
    · intro covers
      exact ⟨[], _, rfl, Marks.reaches_atStart.mpr rfl, covers⟩

end Glob

end TemplateMarkup
