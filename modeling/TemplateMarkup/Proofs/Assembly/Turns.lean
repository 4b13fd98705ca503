import TemplateMarkup.Proofs.Assembly.OpenNames
import TemplateMarkup.Proofs.Markup.Course
import TemplateMarkup.Proofs.Markup.Movement

/-!
# Turns

Reading goes in turns: a text run, and then the tag after it.  A turn is a place where a text run
starts, together with what has been put together before it.  The turns of a source say under which
circumstances each of its texts and tags was taken up, which the template that comes out does not.
Every turn starts at a position of its own.
-/

namespace TemplateMarkup

theorem eq_ok_of_toOption {ε α : Type} {result : Except ε α} {value : α}
    (isValue : result.toOption = some value) : result = .ok value := by
  cases result with
  | error => cases isValue
  | ok => exact congrArg Except.ok (Option.some.inj isValue)

/-- A place where a text run starts, and what has been put together before it. -/
structure Turn where
  place : Cursor
  assembly : Assembly

namespace Turn

def initial (source : String) (start : Position) : Turn :=
  ⟨.atStart source start, .initial start⟩

section

variable (turn : Turn)

/-- The text run that starts here. -/
def run : TextRun := turn.place.readText.1

/-- The place after the text run: a tag or the end of the source. -/
def tagPlace : Cursor := turn.place.readText.2

def withText : Assembly := turn.assembly.addText turn.run

/-- The opening tag after the text run, with the raw body after it. -/
def opening? : Option (OpeningTag × Option RawBody) :=
  if turn.tagPlace.isOpeningTagAhead then some turn.tagPlace.readElementStart.1 else none

/-- The turn after the tag.  There is none at the end of the source or if the tag is at fault. -/
def next? : Option Turn :=
  if turn.tagPlace.isOpeningTagAhead then
    let start := turn.tagPlace.readElementStart
    (turn.withText.openTag start.1.1 start.1.2).toOption.map (⟨start.2, ·⟩)
  else if turn.tagPlace.isClosingTagAhead then
    let closing := turn.tagPlace.readClosingTag
    (turn.withText.closeTag closing.1).toOption.map (⟨closing.2, ·⟩)
  else
    none

theorem ending_run : turn.run.ending ≠ .openingTag ↔ turn.opening? = none := by
  show turn.tagPlace.textEnd ≠ .openingTag ↔ _
  unfold Cursor.textEnd opening?
  split
  · simp
  · split <;> simp

end

variable {turn next : Turn}

/-- A turn follows on an opening tag or on a closing tag. -/
theorem next?_cases (follows : turn.next? = some next) :
    (∃ opening body, turn.opening? = some (opening, body) ∧
      turn.withText.openTag opening body = .ok next.assembly ∧
      turn.tagPlace.isOpeningTagAhead ∧ next.place = turn.tagPlace.readElementStart.2) ∨
    (∃ closing, turn.opening? = none ∧ turn.withText.closeTag closing = .ok next.assembly ∧
      turn.tagPlace.isClosingTagAhead ∧ next.place = turn.tagPlace.readClosingTag.2) := by
  unfold next? at follows
  split at follows
  · next isAhead =>
      obtain ⟨assembly, opens, rfl⟩ := Option.map_eq_some_iff.mp follows
      exact .inl ⟨_, _, if_pos isAhead, eq_ok_of_toOption opens, isAhead, rfl⟩
  · next notAhead =>
      split at follows
      · next isAhead =>
          obtain ⟨assembly, closes, rfl⟩ := Option.map_eq_some_iff.mp follows
          exact .inr ⟨_, if_neg notAhead, eq_ok_of_toOption closes, isAhead, rfl⟩
      · cases follows

theorem remaining_lt_of_next? (follows : turn.next? = some next) :
    next.place.remaining < turn.place.remaining := by
  have afterText := Cursor.remaining_readText_le turn.place
  rcases next?_cases follows with ⟨_, _, _, _, isAhead, place⟩ | ⟨_, _, _, isAhead, place⟩
  · rw [place]
    exact Nat.lt_of_lt_of_le (Cursor.remaining_readElementStart_lt isAhead) afterText
  · rw [place]
    exact Nat.lt_of_lt_of_le (Cursor.remaining_readClosingTag_lt isAhead) afterText

/-- A turn and all that follow on it. -/
def onwards (turn : Turn) : List Turn :=
  match _follows : turn.next? with
  | none => [turn]
  | some next => turn :: next.onwards
termination_by turn.place.remaining
decreasing_by exact remaining_lt_of_next? _follows

/-- What holds of a turn and is handed on from turn to turn holds of all turns. -/
theorem of_mem_onwards {Holds : Turn → Prop} (first : Holds turn)
    (handsOn : ∀ earlier ∈ turn.onwards, ∀ later, Holds earlier → earlier.next? = some later →
      Holds later) : ∀ later ∈ turn.onwards, Holds later := by
  fun_induction onwards turn with
  | case1 turn isLast =>
      intro later member
      rw [List.mem_singleton.mp member]
      exact first
  | case2 turn next follows ih =>
      have isNext := handsOn turn List.mem_cons_self next first follows
      intro later member
      rcases List.mem_cons.mp member with rfl | member
      · exact first
      · exact ih isNext (fun earlier isEarlier => handsOn earlier (.tail _ isEarlier)) later member

/-- What becomes of the tokens from a turn on is decided at the next turn, if there is one. -/
theorem next?_of_foldlM {final : Assembly}
    (run : turn.place.tokens.foldlM Assembly.step turn.assembly = .ok final) :
    (turn.next? = none ∧ turn.opening? = none ∧ final = turn.withText) ∨
      ∃ next, turn.next? = some next ∧
        next.place.tokens.foldlM Assembly.step next.assembly = .ok final := by
  rw [Cursor.tokens_eq, List.foldlM_cons] at run
  have run : turn.tagPlace.tokensAtTag.foldlM Assembly.step turn.withText = .ok final := run
  unfold Cursor.tokensAtTag at run
  unfold next? opening?
  by_cases isOpening : turn.tagPlace.isOpeningTagAhead
  · rw [if_pos isOpening] at run
    obtain ⟨assembly, opens, later⟩ := exists_of_foldlM_cons run
    have opens : turn.withText.openTag _ _ = .ok assembly := opens
    rw [if_pos isOpening]
    simp only [opens]
    exact .inr ⟨_, rfl, later⟩
  · rw [if_neg isOpening] at run ⊢
    by_cases isClosing : turn.tagPlace.isClosingTagAhead
    · rw [if_pos isClosing] at run
      obtain ⟨assembly, closes, later⟩ := exists_of_foldlM_cons run
      have closes : turn.withText.closeTag _ = .ok assembly := closes
      rw [if_pos isClosing]
      simp only [closes]
      exact .inr ⟨_, rfl, later⟩
    · rw [if_neg isClosing] at run ⊢
      exact .inl ⟨rfl, if_neg isOpening, (Except.ok.inj run).symm⟩

/-- The last turn has no tag. -/
theorem exists_onwards_eq_concat {final : Assembly}
    (run : turn.place.tokens.foldlM Assembly.step turn.assembly = .ok final) :
    ∃ before last, turn.onwards = before ++ [last] ∧ last.next? = none ∧ last.opening? = none ∧
      final = last.withText := by
  fun_induction onwards turn with
  | case1 turn isLast =>
      rcases next?_of_foldlM run with ⟨-, noTag, ends⟩ | ⟨next, follows, -⟩
      · exact ⟨[], turn, rfl, isLast, noTag, ends⟩
      · cases isLast.symm.trans follows
  | case2 turn next follows ih =>
      rcases next?_of_foldlM run with ⟨isLast, -, -⟩ | ⟨next', follows', later⟩
      · cases isLast.symm.trans follows
      · cases follows.symm.trans follows'
        obtain ⟨before, last, onwards, ends⟩ := ih later
        exact ⟨turn :: before, last, congrArg (turn :: ·) onwards, ends⟩

theorem exists_last {final : Assembly}
    (run : turn.place.tokens.foldlM Assembly.step turn.assembly = .ok final) :
    ∃ last ∈ turn.onwards, last.opening? = none ∧ final = last.withText := by
  obtain ⟨before, last, onwards, -, noTag, ends⟩ := exists_onwards_eq_concat run
  exact ⟨last, onwards ▸ List.mem_append_cons_self, noTag, ends⟩

/-- What is measured at last is what is measured at first, and what the turns have gained. -/
theorem perm_of_foldlM {β : Type} (measured : Assembly → List β) {gained : Turn → List β}
    {final : Assembly} (run : turn.place.tokens.foldlM Assembly.step turn.assembly = .ok final)
    (gains : ∀ later ∈ turn.onwards, ∀ next, later.next? = some next →
      (measured next.assembly).Perm (measured later.assembly ++ gained later))
    (ends : ∀ last ∈ turn.onwards, last.opening? = none →
      (measured last.withText).Perm (measured last.assembly ++ gained last)) :
    (measured final).Perm (measured turn.assembly ++ turn.onwards.flatMap gained) := by
  fun_induction onwards turn with
  | case1 turn isLast =>
      rcases next?_of_foldlM run with ⟨-, noTag, rfl⟩ | ⟨next, follows, -⟩
      · simpa using ends turn List.mem_cons_self noTag
      · cases isLast.symm.trans follows
  | case2 turn next follows ih =>
      rcases next?_of_foldlM run with ⟨isLast, -, -⟩ | ⟨next', follows', later⟩
      · cases isLast.symm.trans follows
      · cases follows.symm.trans follows'
        refine (ih later (fun later member => gains later (.tail _ member))
          fun last member => ends last (.tail _ member)).trans ?_
        rw [List.flatMap_cons, ← List.append_assoc]
        exact (gains turn List.mem_cons_self next follows).append_right _

theorem leadsTo_next? (follows : turn.next? = some next) :
    Cursor.LeadsTo turn.tagPlace next.place := by
  rcases next?_cases follows with ⟨_, _, _, _, _, place⟩ | ⟨_, _, _, _, place⟩
  · rw [place]
    exact Cursor.leadsTo_readElementStart _
  · rw [place]
    exact Cursor.leadsTo_readClosingTag _

theorem leadsTo_of_mem_onwards : ∀ later ∈ turn.onwards, Cursor.LeadsTo turn.place later.place := by
  refine of_mem_onwards (.refl _) fun earlier _ later leads follows => ?_
  exact (leads.trans (Cursor.leadsTo_readText earlier.place)).trans (leadsTo_next? follows)

/-- Whoever reads on from a mark passes its angle. -/
theorem exists_passes_of_endsTextPiece {start stop : Cursor} (leads : start.LeadsTo stop)
    (moved : stop.remaining < start.remaining) (isMark : start.endsTextPiece) :
    ∃ text, Cursor.Passes text start stop ∧ '<' ∈ text := by
  obtain ⟨text, passes⟩ := leads
  have angle : start.ahead.head? = some '<' := by
    by_contra other
    rw [Cursor.endsTextPiece_eq_false other] at isMark
    cases isMark
  cases passes with
  | done => exact absurd moved (Nat.lt_irrefl _)
  | next ahead later =>
      rw [ahead, List.head?_cons] at angle
      cases angle
      exact ⟨_, .next ahead later, List.mem_cons_self⟩

/-- A turn starts after the one before it. -/
theorem compare_next? (follows : turn.next? = some next) :
    compare turn.place.position next.place.position = .lt := by
  obtain ⟨text, overText⟩ := Cursor.leadsTo_readText turn.place
  obtain ⟨tag, overTag, isTag⟩ : ∃ tag, Cursor.Passes tag turn.tagPlace next.place ∧ '<' ∈ tag := by
    rcases next?_cases follows with ⟨_, _, _, _, isAhead, place⟩ | ⟨_, _, _, isAhead, place⟩
    · rw [place]
      exact exists_passes_of_endsTextPiece (Cursor.leadsTo_readElementStart _)
        (Cursor.remaining_readElementStart_lt isAhead) (by simp [Cursor.endsTextPiece, isAhead])
    · rw [place]
      exact exists_passes_of_endsTextPiece (Cursor.leadsTo_readClosingTag _)
        (Cursor.remaining_readClosingTag_lt isAhead) (by simp [Cursor.endsTextPiece, isAhead])
  have passes := overText.trans overTag
  rw [passes.position_eq]
  refine (turn.place.position.compare_past ?_).resolve_right ?_
  · exact List.append_ne_nil_of_right_ne_nil text (List.ne_nil_of_mem isTag)
  · rintro ⟨isReturn, -⟩
    have member := List.mem_append_right text isTag
    rw [isReturn] at member
    cases List.mem_singleton.mp member

theorem position_lt_of_next? (follows : turn.next? = some next) :
    ∀ later ∈ next.onwards, compare turn.place.position later.place.position = .lt :=
  of_mem_onwards (compare_next? follows) fun _ _ _ isAfter follows' =>
    Position.compare_trans isAfter (compare_next? follows')

/-- No two turns start at the same position. -/
theorem eq_of_position_eq {first second : Turn} (isFirst : first ∈ turn.onwards)
    (isSecond : second ∈ turn.onwards) (same : first.place.position = second.place.position) :
    first = second := by
  have notLess (position : Position) : compare position position ≠ .lt := by
    rw [Ne, Position.compare_eq_lt_iff]
    omega
  fun_induction onwards turn with
  | case1 turn isLast =>
      rw [List.mem_singleton.mp isFirst, List.mem_singleton.mp isSecond]
  | case2 turn next follows ih =>
      have isAfter := position_lt_of_next? follows
      rcases List.mem_cons.mp isFirst with rfl | firstLater
      · rcases List.mem_cons.mp isSecond with rfl | secondLater
        · rfl
        · exact absurd (same ▸ isAfter second secondLater) (notLess _)
      · rcases List.mem_cons.mp isSecond with rfl | secondLater
        · exact absurd (same ▸ isAfter first firstLater) (notLess _)
        · exact ih firstLater secondLater

end Turn

namespace Template

/-- The turns of a source whose first character stands at the given position. -/
def turns (source : String) (start : Position) : List Turn :=
  (Turn.initial source start).onwards

variable {source : String} {start : Position} {sourcePath : Option String} {template : Template}

theorem leadsTo_tagPlace {turn : Turn} (isTurn : turn ∈ turns source start) :
    Cursor.LeadsTo (.atStart source start) turn.tagPlace :=
  (Turn.leadsTo_of_mem_onwards turn isTurn).trans (Cursor.leadsTo_readText _)

theorem exists_run (isParsed : parse source start sourcePath = .ok template) : ∃ final,
    (Turn.initial source start).place.tokens.foldlM Assembly.step
        (Turn.initial source start).assembly = .ok final ∧
      final.finish sourcePath = template :=
  have isParsed : ((Token.scan source start).foldlM Assembly.step (.initial start)).map
      (·.finish sourcePath) = .ok template := isParsed
  exists_ok_of_map isParsed

/-- A template is what the last turn has put together, with everything closed that is open. -/
theorem exists_last_turn (isParsed : parse source start sourcePath = .ok template) :
    ∃ last ∈ turns source start, last.opening? = none ∧
      template = last.withText.finish sourcePath := by
  obtain ⟨final, run, rfl⟩ := exists_run isParsed
  obtain ⟨last, member, noTag, rfl⟩ := Turn.exists_last run
  exact ⟨last, member, noTag, rfl⟩

end Template

end TemplateMarkup
