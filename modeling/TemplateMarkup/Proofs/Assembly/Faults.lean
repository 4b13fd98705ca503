import TemplateMarkup.Proofs.Assembly.Turns
import TemplateMarkup.Proofs.Document.Lookup
import TemplateMarkup.Proofs.Markup.Relocation

/-!
# Faults

A source has at most one fault, since nothing is read after it: it is that of the tag of the last turn.
An opening tag is at fault if it declares a component that has been declared before, and a closing tag
if nothing of its name is open.  Where a tag follows, the tags before it are whole, because one that is
cut off leaves nothing to be read.
-/

namespace TemplateMarkup

theorem eq_error_of_map {ε α β : Type} {change : α → β} {result : Except ε α} {error : ε}
    (mapped : result.map change = .error error) : result = .error error := by
  cases result with
  | error => exact congrArg Except.error (Except.error.inj mapped)
  | ok => cases mapped

namespace Cursor

variable {cursor : Cursor}

theorem ahead_eq_nil_of_leadsTo {stop : Cursor} (leads : LeadsTo cursor stop)
    (atEnd : cursor.ahead = []) : stop.ahead = [] := by
  obtain ⟨text, ahead⟩ := leads.exists_ahead_eq
  rw [atEnd] at ahead
  exact (List.append_eq_nil_iff.mp ahead.symm).2

/-- What is passed over ends with the last character before the place that it leads to. -/
theorem Passes.eq_concat {text read : List Char} {last : Char} {stop : Cursor}
    (passes : Passes text cursor stop) (ahead : cursor.ahead = read ++ last :: stop.ahead) :
    text = read ++ [last] := by
  have whole : text ++ stop.ahead = (read ++ [last]) ++ stop.ahead := by
    rw [← passes.ahead_eq, ahead, List.append_assoc, List.singleton_append]
  exact List.append_cancel_right whole

/-- A tag with something after it is whole. -/
theorem openingTagIsWhole_of_ahead (more : cursor.readOpeningTag.2.ahead ≠ []) :
    cursor.OpeningTagIsWhole := by
  intro atEnd
  rw [readOpeningTag_snd] at more
  exact more (ahead_eq_nil_of_leadsTo (leadsTo_skipTagEnd _) atEnd)

theorem closingTagIsWhole_of_ahead (more : cursor.readClosingTag.2.ahead ≠ []) :
    cursor.ClosingTagIsWhole := by
  intro atEnd
  rw [readClosingTag_snd] at more
  exact more (ahead_eq_nil_of_leadsTo (leadsTo_advance _) atEnd)

theorem elementStartIsWhole_of_ahead (more : cursor.readElementStart.2.ahead ≠ []) :
    cursor.ElementStartIsWhole := by
  unfold readElementStart at more
  simp only at more
  cases isRaw : cursor.readOpeningTag.1.rawKind? with
  | none =>
      rw [isRaw] at more
      refine ⟨openingTagIsWhole_of_ahead more, ?_⟩
      rw [isRaw]
      exact nofun
  | some kind =>
      rw [isRaw] at more
      refine ⟨openingTagIsWhole_of_ahead fun atEnd => ?_, ?_⟩
      · exact more (ahead_eq_nil_of_leadsTo (leadsTo_readRawBody _ _ _) atEnd)
      · rw [isRaw]
        rintro kind ⟨⟩
        refine ⟨fun atEnd => ?_, closingTagIsWhole_of_ahead more⟩
        exact more (ahead_eq_nil_of_leadsTo (leadsTo_readClosingTag _) atEnd)

end Cursor

namespace Assembly

variable {assembly : Assembly} {error : ParseError}

/-- An opening tag is at fault only if it declares a component once more. -/
theorem exists_of_openTag_eq_error {opening : OpeningTag} {body : Option RawBody}
    (fails : assembly.openTag opening body = .error error) :
    ∃ name, opening.tag.componentName? = some name ∧ name ∈ assembly.components.names ∧
      error = ⟨.duplicateComponent name, opening.tag.position, opening.span⟩ := by
  unfold openTag at fails
  split at fails
  · cases fails
  · split at fails
    · next name declares =>
        unfold openComponent at fails
        split at fails
        · next isDeclared =>
            exact ⟨name, declares, NameMap.contains_iff.mp isDeclared, (Except.error.inj fails).symm⟩
        · cases fails
    · cases fails

/-- A closing tag is at fault only if nothing of its name is open. -/
theorem unmatched_of_closeTag_eq_error {closing : ClosingTag}
    (fails : assembly.closeTag closing = .error error) :
    closing.name ∉ assembly.openNames ∧ error = unmatched closing := by
  have flat := closeWithin_flatten closing assembly.inline assembly rfl
  have fails : closeWithin closing assembly.inline assembly = .error error := fails
  rw [fails] at flat
  by_cases isOpen : closing.name ∈ assembly.flatten.openNames
  · obtain ⟨inside, outside, names, isFirst⟩ := List.eq_append_cons_of_mem isOpen
    cases (FlatAssembly.closeTag_of_openNames names isFirst).symm.trans flat
  · rw [openNames_flatten] at isOpen
    refine ⟨isOpen, ?_⟩
    rw [← openNames_flatten] at isOpen
    exact (Except.error.inj ((FlatAssembly.closeTag_of_not_mem isOpen).symm.trans flat)).symm

end Assembly

namespace Turn

variable {turn : Turn} {error : ParseError}

/-- What is wrong with the turn's tag. -/
def fault? (turn : Turn) : Option ParseError :=
  let outcome :=
    if turn.tagPlace.isOpeningTagAhead then
      let start := turn.tagPlace.readElementStart.1
      turn.withText.openTag start.1 start.2
    else if turn.tagPlace.isClosingTagAhead then
      turn.withText.closeTag turn.tagPlace.readClosingTag.1
    else .ok turn.withText
  match outcome with
  | .ok _ => none
  | .error error => some error

/-- The place after the turn's tag, and before its raw body. -/
def tagEnd (turn : Turn) : Cursor :=
  if turn.tagPlace.isOpeningTagAhead then turn.tagPlace.readOpeningTag.2
  else turn.tagPlace.readClosingTag.2

/-- The turn's tag is not cut off by the end of the source. -/
def TagIsWhole (turn : Turn) : Prop :=
  if turn.tagPlace.isOpeningTagAhead then turn.tagPlace.OpeningTagIsWhole
  else turn.tagPlace.ClosingTagIsWhole

instance (turn : Turn) : Decidable turn.TagIsWhole :=
  inferInstanceAs (Decidable (if turn.tagPlace.isOpeningTagAhead then _ else _))

/-- A fault is that of an opening tag or of a closing tag. -/
theorem fault?_eq_some_iff : turn.fault? = some error ↔
    (turn.tagPlace.isOpeningTagAhead = true ∧
      turn.withText.openTag turn.tagPlace.readElementStart.1.1 turn.tagPlace.readElementStart.1.2 =
        .error error) ∨
    (turn.tagPlace.isOpeningTagAhead = false ∧ turn.tagPlace.isClosingTagAhead = true ∧
      turn.withText.closeTag turn.tagPlace.readClosingTag.1 = .error error) := by
  have isFault (outcome : Except ParseError Assembly) :
      (match outcome with | .ok _ => none | .error error => some error) = some error ↔
        outcome = .error error := by
    cases outcome <;> simp
  unfold fault?
  dsimp only
  rw [isFault]
  cases turn.tagPlace.isOpeningTagAhead with
  | true => simp
  | false =>
      cases turn.tagPlace.isClosingTagAhead with
      | true => simp
      | false => simp

theorem leadsTo_tagEnd (turn : Turn) : Cursor.LeadsTo turn.tagPlace turn.tagEnd := by
  unfold tagEnd
  split
  · exact Cursor.leadsTo_readOpeningTag _
  · exact Cursor.leadsTo_readClosingTag _

theorem exists_angle_of_tagIsWhole (whole : turn.TagIsWhole) :
    ∃ read, turn.tagPlace.ahead = read ++ '>' :: turn.tagEnd.ahead := by
  unfold TagIsWhole at whole
  unfold tagEnd
  split at whole
  · next isOpening =>
      rw [if_pos isOpening]
      exact Cursor.exists_angle_of_openingTag whole
  · next notOpening =>
      rw [if_neg notOpening]
      exact Cursor.exists_angle_of_closingTag whole

/-- The span of a fault is that of its tag. -/
theorem span_of_fault? (isFault : turn.fault? = some error) :
    error.position = turn.tagPlace.position ∧
      error.span = turn.tagEnd.spanSince turn.tagPlace.offset := by
  unfold tagEnd
  rcases fault?_eq_some_iff.mp isFault with ⟨isOpening, fails⟩ | ⟨notOpening, -, fails⟩
  · obtain ⟨name, -, -, rfl⟩ := Assembly.exists_of_openTag_eq_error fails
    rw [Cursor.fst_readElementStart, if_pos isOpening]
    exact ⟨rfl, rfl⟩
  · obtain ⟨-, rfl⟩ := Assembly.unmatched_of_closeTag_eq_error fails
    rw [if_neg (by simp [notOpening])]
    exact ⟨rfl, rfl⟩

/-- Where reading fails, it fails at this turn's tag or after it. -/
theorem fault?_of_foldlM
    (fails : turn.place.tokens.foldlM Assembly.step turn.assembly = .error error) :
    (turn.next? = none ∧ turn.fault? = some error) ∨
      ∃ next, turn.next? = some next ∧
        next.place.tokens.foldlM Assembly.step next.assembly = .error error := by
  rw [Cursor.tokens_eq, List.foldlM_cons] at fails
  have fails : turn.tagPlace.tokensAtTag.foldlM Assembly.step turn.withText = .error error := fails
  unfold Cursor.tokensAtTag at fails
  unfold next? fault?
  by_cases isOpening : turn.tagPlace.isOpeningTagAhead
  · rw [if_pos isOpening, List.foldlM_cons, Assembly.step] at fails
    simp only [if_pos isOpening]
    cases opens : turn.withText.openTag turn.tagPlace.readElementStart.1.1
        turn.tagPlace.readElementStart.1.2 with
    | error fault =>
        rw [opens] at fails
        exact .inl ⟨rfl, congrArg some (Except.error.inj fails)⟩
    | ok assembly =>
        rw [opens] at fails
        exact .inr ⟨_, rfl, fails⟩
  · rw [if_neg isOpening] at fails
    simp only [if_neg isOpening]
    by_cases isClosing : turn.tagPlace.isClosingTagAhead
    · rw [if_pos isClosing, List.foldlM_cons, Assembly.step] at fails
      simp only [if_pos isClosing]
      cases closes : turn.withText.closeTag turn.tagPlace.readClosingTag.1 with
      | error fault =>
          rw [closes] at fails
          exact .inl ⟨rfl, congrArg some (Except.error.inj fails)⟩
      | ok assembly =>
          rw [closes] at fails
          exact .inr ⟨_, rfl, fails⟩
    · rw [if_neg isClosing] at fails
      cases fails

theorem foldlM_of_fault? (isFault : turn.fault? = some error) :
    turn.place.tokens.foldlM Assembly.step turn.assembly = .error error := by
  rw [Cursor.tokens_eq, List.foldlM_cons]
  show turn.tagPlace.tokensAtTag.foldlM Assembly.step turn.withText = .error error
  unfold Cursor.tokensAtTag
  rcases fault?_eq_some_iff.mp isFault with ⟨isOpening, fails⟩ | ⟨notOpening, isClosing, fails⟩
  · rw [if_pos isOpening, List.foldlM_cons, Assembly.step, fails]
    rfl
  · rw [if_neg (by simp [notOpening]), if_pos isClosing, List.foldlM_cons, Assembly.step, fails]
    rfl

theorem ahead_ne_nil_of_fault? (isFault : turn.fault? = some error) : turn.tagPlace.ahead ≠ [] := by
  intro atEnd
  rcases fault?_eq_some_iff.mp isFault with ⟨isOpening, -⟩ | ⟨-, isClosing, -⟩
  · simp [Cursor.isOpeningTagAhead, Cursor.isOn_of_ahead_nil atEnd] at isOpening
  · simp [Cursor.isClosingTagAhead, Cursor.startsWith, atEnd, Cursor.closingTagOpener] at isClosing

/-- A fault is that of the last turn. -/
theorem exists_fault (fails : turn.place.tokens.foldlM Assembly.step turn.assembly = .error error) :
    ∃ before last, turn.onwards = before ++ [last] ∧ last.fault? = some error := by
  fun_induction onwards turn with
  | case1 turn isLast =>
      rcases fault?_of_foldlM fails with ⟨-, isFault⟩ | ⟨next, follows, -⟩
      · exact ⟨[], turn, rfl, isFault⟩
      · cases isLast.symm.trans follows
  | case2 turn next follows ih =>
      rcases fault?_of_foldlM fails with ⟨isLast, -⟩ | ⟨next', follows', later⟩
      · cases isLast.symm.trans follows
      · cases follows.symm.trans follows'
        obtain ⟨before, last, onwards, isFault⟩ := ih later
        exact ⟨turn :: before, last, congrArg (turn :: ·) onwards, isFault⟩

/-- A tag with something after it can be read before what is read later. -/
theorem exists_runs_of_next? {next : Turn} {stop : Cursor} {tokens : List Token} {final : Assembly}
    (follows : turn.next? = some next) (more : next.place.ahead ≠ [])
    (runs : Cursor.Runs tokens next.place stop)
    (folded : tokens.foldlM Assembly.step next.assembly = .ok final) :
    ∃ tokens, Cursor.Runs tokens turn.place stop ∧
      tokens.foldlM Assembly.step turn.assembly = .ok final := by
  unfold next? at follows
  split at follows
  · next isAhead =>
      obtain ⟨assembly, opens, rfl⟩ := Option.map_eq_some_iff.mp follows
      refine ⟨_, .opening isAhead (Cursor.elementStartIsWhole_of_ahead more) runs, ?_⟩
      have opens : turn.withText.step (.opening turn.tagPlace.readElementStart.1.1
          turn.tagPlace.readElementStart.1.2) = .ok assembly := eq_ok_of_toOption opens
      exact (congrArg (· >>= tokens.foldlM Assembly.step) opens).trans folded
  · split at follows
    · next isAhead =>
        obtain ⟨assembly, closes, rfl⟩ := Option.map_eq_some_iff.mp follows
        refine ⟨_, .closing isAhead (Cursor.closingTagIsWhole_of_ahead more) runs, ?_⟩
        have closes : turn.withText.step (.closing turn.tagPlace.readClosingTag.1) = .ok assembly :=
          eq_ok_of_toOption closes
        exact (congrArg (· >>= tokens.foldlM Assembly.step) closes).trans folded
    · cases follows

/-- Up to a turn with a tag all tags are whole. -/
theorem exists_runs {last : Turn} (hasTag : last.tagPlace.ahead ≠ []) :
    last ∈ turn.onwards → ∃ tokens, Cursor.Runs tokens turn.place last.place ∧
      tokens.foldlM Assembly.step turn.assembly = .ok last.assembly := by
  fun_induction onwards turn with
  | case1 turn isLast =>
      intro member
      rw [List.mem_singleton.mp member]
      exact ⟨[], .done _, rfl⟩
  | case2 turn next follows ih =>
      intro member
      rcases List.mem_cons.mp member with rfl | member
      · exact ⟨[], .done _, rfl⟩
      · obtain ⟨tokens, runs, folded⟩ := ih member
        have more : next.place.ahead ≠ [] := fun atEnd => hasTag <|
          Cursor.ahead_eq_nil_of_leadsTo
            ((leadsTo_of_mem_onwards last member).trans (Cursor.leadsTo_readText _)) atEnd
        exact exists_runs_of_next? follows more runs folded

end Turn

namespace Template

variable {source : String} {start : Position} {sourcePath : Option String} {error : ParseError}

theorem parse_eq_error_iff : parse source start sourcePath = .error error ↔
    (Turn.initial source start).place.tokens.foldlM Assembly.step
      (Turn.initial source start).assembly = .error error := by
  show ((Turn.initial source start).place.tokens.foldlM Assembly.step
    (Turn.initial source start).assembly).map (·.finish sourcePath) = .error error ↔ _
  refine ⟨eq_error_of_map, fun fails => ?_⟩
  rw [fails]
  rfl

/-- The error of a source is the fault of its last turn. -/
theorem exists_fault (fails : parse source start sourcePath = .error error) :
    ∃ before last, turns source start = before ++ [last] ∧ last.fault? = some error :=
  Turn.exists_fault (parse_eq_error_iff.mp fails)

end Template

end TemplateMarkup
