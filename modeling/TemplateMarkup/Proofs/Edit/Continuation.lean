import TemplateMarkup.Proofs.Assembly.Faults

/-!
# What follows a fault

The fault of a source is decided as soon as its tag has been read.  Every source that is the same up to
the end of that tag has the same fault at the same place, whatever it goes on with.  For this the tag has
to be whole: one that is cut off by the end of the source may become another tag if the source goes on.
-/

namespace TemplateMarkup

namespace Cursor

variable {rest rest' : List Char} {cursor other stop stop' : Cursor}

/-- Between two places that are shared, as many bytes are passed in both sources. -/
theorem Shares.offset_eq (shares : Shares rest rest' cursor other)
    (ends : Shares rest rest' stop stop') (leads : LeadsTo cursor stop) (leads' : LeadsTo other stop')
    (sameOffset : other.offset = cursor.offset) : stop'.offset = stop.offset := by
  obtain ⟨text, passes, passes'⟩ := shares.exists_passes ends leads leads'
  rw [passes.offset_eq, passes'.offset_eq, sameOffset]

theorem Shares.position_eq (shares : Shares rest rest' cursor other)
    (ends : Shares rest rest' stop stop') (leads : LeadsTo cursor stop) (leads' : LeadsTo other stop')
    (inside : rest.length < stop.remaining) (samePosition : other.position = cursor.position) :
    stop'.position = stop.position := by
  obtain ⟨text, passes, passes'⟩ := shares.exists_passes ends leads leads'
  rw [passes.position_eq, passes'.position_eq, ends.current?_eq inside, samePosition]

end Cursor

theorem Assembly.exists_of_foldlM_reword {tokens tokens' : List Token} {assembly final : Assembly}
    (same : tokens'.map (·.reword .unplaced) = tokens.map (·.reword .unplaced))
    (folded : tokens.foldlM step assembly = .ok final) :
    ∃ final', tokens'.foldlM step assembly = .ok final' ∧
      final'.reword .unplaced = final.reword .unplaced := by
  have outcomes := foldlM_step_reword .unplaced assembly tokens'
  rw [same, foldlM_step_reword, folded] at outcomes
  cases folded' : tokens'.foldlM step assembly with
  | error error =>
      rw [folded'] at outcomes
      cases outcomes
  | ok final' =>
      rw [folded'] at outcomes
      exact ⟨final', rfl, (Except.ok.inj outcomes).symm⟩

theorem OpeningTag.rawKind?_of_componentName? {opening : OpeningTag} {name : String}
    (declares : opening.tag.componentName? = some name) : opening.rawKind? = none := by
  unfold rawKind?
  rw [FlatAssembly.name_of_componentName?_eq_some declares, declares]
  simp

theorem StructuralFault.reword_unplaced (fault : StructuralFault) : fault.reword .unplaced = fault := by
  cases fault <;> rfl

/-- Two steps that are alike fail alike. -/
theorem Assembly.exists_error_of_outcome {result result' : Except ParseError Assembly}
    {error : ParseError}
    (same : Rewording.unplaced.outcome (reword .unplaced) result' =
      Rewording.unplaced.outcome (reword .unplaced) result) (fails : result = .error error) :
    ∃ error', result' = .error error' ∧ error'.fault = error.fault := by
  rw [fails] at same
  cases result' with
  | ok => cases same
  | error error' =>
      refine ⟨error', rfl, ?_⟩
      have sameFault := congrArg ParseError.fault (Except.error.inj same)
      rwa [ParseError.reword, ParseError.reword, StructuralFault.reword_unplaced,
        StructuralFault.reword_unplaced] at sameFault

namespace Turn

variable {turn turn' : Turn} {rest rest' : List Char} {error : ParseError}

/-- At places that are alike, the same whole opening tag has the same fault. -/
theorem exists_fault?_of_openingTag (isAhead : turn.tagPlace.isOpeningTagAhead = true)
    (isAhead' : turn'.tagPlace.isOpeningTagAhead = true)
    (isFault : turn.fault? = some error)
    (opening : turn'.tagPlace.readOpeningTag.1.reword .unplaced =
      turn.tagPlace.readOpeningTag.1.reword .unplaced)
    (alike : turn'.withText.reword .unplaced = turn.withText.reword .unplaced) :
    ∃ error', turn'.fault? = some error' ∧ error'.fault = error.fault := by
  have fails : turn.withText.openTag turn.tagPlace.readElementStart.1.1
      turn.tagPlace.readElementStart.1.2 = .error error := by
    rcases fault?_eq_some_iff.mp isFault with ⟨-, fails⟩ | ⟨notAhead, -⟩
    · exact fails
    · cases isAhead.symm.trans notAhead
  obtain ⟨name, declares, -, -⟩ := Assembly.exists_of_openTag_eq_error fails
  -- The root of a component has no raw body, so nothing after the tag has been read.
  have noBody := OpeningTag.rawKind?_of_componentName? declares
  obtain ⟨-, sameKind⟩ := Cursor.name_rawKind?_eq opening
  rw [Cursor.fst_readElementStart] at noBody fails
  have outcomes : Rewording.unplaced.outcome (Assembly.reword .unplaced)
      (turn'.withText.openTag turn'.tagPlace.readOpeningTag.1 none) =
      Rewording.unplaced.outcome (Assembly.reword .unplaced)
        (turn.withText.openTag turn.tagPlace.readOpeningTag.1 none) := by
    rw [← Assembly.openTag_reword, ← Assembly.openTag_reword, alike, opening]
  simp only [noBody, Option.map_none] at fails
  obtain ⟨error', fails', sameFault⟩ := Assembly.exists_error_of_outcome outcomes fails
  refine ⟨error', fault?_eq_some_iff.mpr (.inl ⟨isAhead', ?_⟩), sameFault⟩
  simp only [Cursor.fst_readElementStart, sameKind, noBody, Option.map_none]
  exact fails'

theorem exists_fault?_of_closingTag (notOpening : turn.tagPlace.isOpeningTagAhead = false)
    (notOpening' : turn'.tagPlace.isOpeningTagAhead = false)
    (isAhead' : turn'.tagPlace.isClosingTagAhead = true)
    (isFault : turn.fault? = some error)
    (closing : turn'.tagPlace.readClosingTag.1.reword .unplaced =
      turn.tagPlace.readClosingTag.1.reword .unplaced)
    (alike : turn'.withText.reword .unplaced = turn.withText.reword .unplaced) :
    ∃ error', turn'.fault? = some error' ∧ error'.fault = error.fault := by
  have fails : turn.withText.step (.closing turn.tagPlace.readClosingTag.1) = .error error := by
    rcases fault?_eq_some_iff.mp isFault with ⟨isOpening, -⟩ | ⟨-, -, fails⟩
    · cases isOpening.symm.trans notOpening
    · exact fails
  have outcomes : Rewording.unplaced.outcome (Assembly.reword .unplaced)
      (turn'.withText.step (.closing turn'.tagPlace.readClosingTag.1)) =
      Rewording.unplaced.outcome (Assembly.reword .unplaced)
        (turn.withText.step (.closing turn.tagPlace.readClosingTag.1)) := by
    rw [← Assembly.step_reword, ← Assembly.step_reword, alike, Token.reword, Token.reword, closing]
  obtain ⟨error', fails', sameFault⟩ := Assembly.exists_error_of_outcome outcomes fails
  exact ⟨error', fault?_eq_some_iff.mpr (.inr ⟨notOpening', isAhead', fails'⟩), sameFault⟩

/-- At places that are alike, what is shared up to the end of a whole tag has the same fault. -/
theorem fault?_of_shares (isFault : turn.fault? = some error) (whole : turn.TagIsWhole)
    (shares : Cursor.Shares turn.tagEnd.ahead rest' turn.place turn'.place)
    (sameOffset : turn'.place.offset = turn.place.offset)
    (samePosition : turn'.place.position = turn.place.position)
    (alike : turn'.assembly.reword .unplaced = turn.assembly.reword .unplaced) :
    turn'.fault? = some error := by
  obtain ⟨read, toAngle⟩ := exists_angle_of_tagIsWhole whole
  obtain ⟨run, sameOpening, sameClosing, atTag⟩ :=
    Cursor.readText_of_shares shares ⟨read, toAngle⟩ (Nat.le_refl _)
  have sameOpening : turn'.tagPlace.isOpeningTagAhead = turn.tagPlace.isOpeningTagAhead := sameOpening
  have sameClosing : turn'.tagPlace.isClosingTagAhead = turn.tagPlace.isClosingTagAhead := sameClosing
  have atTag : Cursor.Shares turn.tagEnd.ahead rest' turn.tagPlace turn'.tagPlace := atTag
  have alikeText : turn'.withText.reword .unplaced = turn.withText.reword .unplaced := by
    unfold withText
    rw [← Assembly.addText_reword, ← Assembly.addText_reword, alike]
    exact congrArg _ run
  obtain ⟨⟨error', isFault', sameFault⟩, ends⟩ :
      (∃ error', turn'.fault? = some error' ∧ error'.fault = error.fault) ∧
        Cursor.Shares turn.tagEnd.ahead rest' turn.tagEnd turn'.tagEnd := by
    unfold TagIsWhole at whole
    unfold tagEnd at atTag ⊢
    rw [sameOpening]
    rcases fault?_eq_some_iff.mp isFault with ⟨isAhead, -⟩ | ⟨notOpening, isAhead, -⟩
    · rw [if_pos isAhead] at whole atTag
      rw [if_pos isAhead, if_pos isAhead]
      obtain ⟨-, opening, -, ends⟩ := Cursor.readOpeningTag_of_shares whole atTag (Nat.le_refl _)
      exact ⟨exists_fault?_of_openingTag isAhead (sameOpening.trans isAhead) isFault opening alikeText,
        ends⟩
    · have notAhead : ¬ turn.tagPlace.isOpeningTagAhead = true := by simp [notOpening]
      rw [if_neg notAhead] at whole atTag
      rw [if_neg notAhead, if_neg notAhead]
      obtain ⟨-, closing, ends⟩ := Cursor.readClosingTag_of_shares whole atTag (Nat.le_refl _)
      exact ⟨exists_fault?_of_closingTag notOpening (sameOpening.trans notOpening)
        (sameClosing.trans isAhead) isFault closing alikeText, ends⟩
  -- The faults are the same, and so are the place of the tag and the place after it.
  have tagOffset : turn'.tagPlace.offset = turn.tagPlace.offset :=
    shares.offset_eq atTag (Cursor.leadsTo_readText _) (Cursor.leadsTo_readText _) sameOffset
  have inside : turn.tagEnd.ahead.length < turn.tagPlace.remaining := by
    rw [Cursor.remaining, toAngle, List.length_append, List.length_cons]
    omega
  have tagPosition : turn'.tagPlace.position = turn.tagPlace.position :=
    shares.position_eq atTag (Cursor.leadsTo_readText _) (Cursor.leadsTo_readText _) inside
      samePosition
  have endOffset := atTag.offset_eq ends turn.leadsTo_tagEnd turn'.leadsTo_tagEnd tagOffset
  obtain ⟨position, span⟩ := span_of_fault? isFault
  obtain ⟨position', span'⟩ := span_of_fault? isFault'
  rw [isFault']
  refine congrArg some ?_
  calc error' = ⟨error'.fault, error'.position, error'.span⟩ := rfl
    _ = ⟨error.fault, error.position, error.span⟩ := by
      rw [sameFault, position', position, span', span, tagPosition, Cursor.spanSince,
        Cursor.spanSince, endOffset, tagOffset]
    _ = error := rfl

end Turn

theorem byteLength_eq_size_utf8Encode (text : List Char) : byteLength text = text.utf8Encode.size := by
  induction text with
  | nil => rfl
  | cons character rest ih =>
      rw [List.utf8Encode_cons, ByteArray.size_append, List.utf8Encode_singleton,
        List.size_toByteArray, String.length_utf8EncodeChar, ← ih, byteLength]

/-- A source with the same first bytes as another one starts with the same characters. -/
theorem exists_append_of_extract_eq {source source' : String} {read rest : List Char}
    (split : source.toList = read ++ rest)
    (same : source'.toUTF8.extract 0 (byteLength read) = source.toUTF8.extract 0 (byteLength read)) :
    ∃ rest', source'.toList = read ++ rest' := by
  have first : source.toUTF8.extract 0 (byteLength read) = read.utf8Encode := by
    rw [String.toUTF8_eq_toByteArray, ← String.utf8Encode_toList, split, List.utf8Encode_append]
    exact ByteArray.extract_append_eq_left (byteLength_eq_size_utf8Encode read)
  rw [first, String.toUTF8_eq_toByteArray] at same
  have whole : read.utf8Encode ++ source'.toByteArray.extract (byteLength read)
      source'.toByteArray.size = source'.toList.utf8Encode := by
    rw [← same, ByteArray.extract_append_extract, Nat.zero_min, ByteArray.extract_zero_max_size,
      String.utf8Encode_toList]
  obtain ⟨rest', isWhole⟩ := List.isPrefix_of_utf8Encode_append_eq_utf8Encode _ whole
  exact ⟨rest', isWhole.symm⟩

namespace Template

variable {source source' : String} {start : Position} {sourcePath : Option String}
variable {error : ParseError}

/-- A source that goes on differently after a whole tag at fault has the same fault. -/
theorem parse_eq_error_of_append {last : Turn} (isTurn : last ∈ turns source start)
    (isFault : last.fault? = some error) (whole : last.TagIsWhole) {read rest' : List Char}
    (split : source.toList = read ++ last.tagEnd.ahead) (split' : source'.toList = read ++ rest')
    (sourcePath : Option String) : parse source' start sourcePath = .error error := by
  obtain ⟨tokens, runs, folded⟩ := Turn.exists_runs (Turn.ahead_ne_nil_of_fault? isFault) isTurn
  obtain ⟨before, aheadStart⟩ := runs.leadsTo.exists_ahead_eq
  obtain ⟨middle, aheadPlace⟩ :=
    ((Cursor.leadsTo_readText last.place).trans last.leadsTo_tagEnd).exists_ahead_eq
  have isRead : read = before ++ middle := by
    have whole : read ++ last.tagEnd.ahead = before ++ middle ++ last.tagEnd.ahead := by
      rw [← split, List.append_assoc, ← aheadPlace]
      exact aheadStart
    exact List.append_cancel_right whole
  have ahead' : (Cursor.atStart source' start).ahead = before ++ (middle ++ rest') := by
    rw [← List.append_assoc, ← isRead]
    exact split'
  obtain ⟨tokens', place, runs', same, aheadPlace'⟩ := runs.exists_of_shares ⟨before, aheadStart, ahead'⟩
  obtain ⟨assembly, folded', alike⟩ := Assembly.exists_of_foldlM_reword same folded
  have shares : Cursor.Shares last.tagEnd.ahead rest' (.atStart source start)
      (.atStart source' start) := ⟨read, split, split'⟩
  have ends : Cursor.Shares last.tagEnd.ahead rest' last.place place :=
    ⟨middle, aheadPlace, aheadPlace'⟩
  have inside : last.tagEnd.ahead.length < last.place.remaining := by
    obtain ⟨text, toAngle⟩ := Turn.exists_angle_of_tagIsWhole whole
    refine Nat.lt_of_lt_of_le ?_ (Cursor.leadsTo_readText last.place).remaining_le
    show last.tagEnd.ahead.length < last.tagPlace.ahead.length
    rw [toAngle, List.length_append, List.length_cons]
    omega
  have isFault' : (⟨place, assembly⟩ : Turn).fault? = some error :=
    Turn.fault?_of_shares isFault whole ends
      (shares.offset_eq ends runs.leadsTo runs'.leadsTo rfl)
      (shares.position_eq ends runs.leadsTo runs'.leadsTo inside rfl) alike
  have tokens : (Turn.initial source' start).place.tokens = tokens' ++ place.tokens := runs'.tokens_eq
  have folded' : tokens'.foldlM Assembly.step (Turn.initial source' start).assembly = .ok assembly :=
    folded'
  rw [parse_eq_error_iff, tokens, List.foldlM_append, folded']
  exact Turn.foldlM_of_fault? isFault'

/-- The fault of a source is decided by the bytes up to the end of its tag. -/
theorem parse_eq_error_of_same_bytes (small : byteLength source.toList < UInt32.size)
    (fails : parse source start sourcePath = .error error)
    (whole : ∀ turn ∈ turns source start, turn.fault? = some error → turn.TagIsWhole)
    (same : source'.toUTF8.extract 0 error.span.stop.toNat =
      source.toUTF8.extract 0 error.span.stop.toNat) (sourcePath' : Option String) :
    parse source' start sourcePath' = .error error := by
  obtain ⟨before, last, turns, isFault⟩ := exists_fault fails
  have isTurn : last ∈ Template.turns source start := turns ▸ List.mem_append_cons_self
  have within : last.tagEnd.IsWithin source.toList :=
    (Cursor.isWithin_atStart source start).of_leadsTo
      ((leadsTo_tagPlace isTurn).trans last.leadsTo_tagEnd)
  have split : source.toList = last.tagEnd.behind.reverse ++ last.tagEnd.ahead := within.source_eq.symm
  have stop : error.span.stop.toNat = byteLength last.tagEnd.behind.reverse := by
    rw [(Turn.span_of_fault? isFault).2, ← within.offset_eq]
    refine UInt32.toNat_ofNat_of_lt ?_
    rw [within.offset_eq]
    refine Nat.lt_of_le_of_lt ?_ small
    rw [split, byteLength_append]
    exact Nat.le_add_right _ _
  rw [stop] at same
  obtain ⟨rest', split'⟩ := exists_append_of_extract_eq split same
  exact parse_eq_error_of_append isTurn isFault (whole last isTurn isFault) split split' sourcePath'

/-- A closing tag of which nothing is open, after a character of two bytes. -/
def straySource : String := "é</b>"

/-- The closing tag is at fault whatever comes after it. -/
theorem parse_eq_error_stray : ∃ error, parse straySource .start none = .error error ∧
    error.span = ⟨2, 6⟩ ∧ parse (straySource ++ "\r</b></template>") .start none = .error error := by
  have isFailure : (parse straySource .start none).map (fun _ => ()) =
      .error ⟨.unmatchedClosingTag "b", ⟨1, 2⟩, ⟨2, 6⟩⟩ := by decide +kernel
  have fails := eq_error_of_map isFailure
  exact ⟨_, fails, rfl, parse_eq_error_of_same_bytes (by decide +kernel) fails (by decide +kernel)
    (by decide +kernel) none⟩

end Template

end TemplateMarkup
