import TemplateMarkup.Proofs.Markup.Course
import TemplateMarkup.Proofs.Markup.Movement

/-!
# Loops of the readers

A reader goes round a loop.  Each time it looks at what is ahead, and then it stops or goes on from
another state.  A loop that takes some bytes each time it goes on comes to an end, however malformed the
source is: the bytes that are ahead bound the number of its iterations.

The loops here are those inside of tags, of text runs and of raw bodies.  Each one comes with what it
has read when it stops, which is what its reader reads.
-/

namespace TemplateMarkup

open CharacterClass

/-- A loop of a reader.  An iteration comes to another state, unless it is the last one. -/
structure Loop (State : Type) where
  next? : State → Option State
  /-- Where the reader stands. -/
  place : State → Cursor

namespace Loop

section

variable {State : Type} (loop : Loop State)

/-- After a number of iterations the loop has come from one state to another, and there it stops. -/
inductive Ends : Nat → State → State → Prop where
  | stops {state : State} (isLast : loop.next? state = none) : Ends 1 state state
  | goesOn {count : Nat} {state next last : State} (follows : loop.next? state = some next)
      (later : Ends count next last) : Ends (count + 1) state last

/-- Every iteration that does not stop reads on, over so many bytes at least. -/
def Advances (bytes : Nat) : Prop :=
  ∀ ⦃state next⦄, loop.next? state = some next →
    (loop.place state).LeadsTo (loop.place next) ∧
      (loop.place state).offset + bytes ≤ (loop.place next).offset

/-- The loop advances, and so it stops in time, in a state that holds the result. -/
structure Progresses {Input : Type} (bytes : Nat) (start : Input → State)
    (IsResult : Input → State → Prop) : Prop where
  advances : loop.Advances bytes
  stops : ∀ input, ∃ count last, loop.Ends count (start input) last ∧
    count ≤ byteLength (loop.place (start input)).ahead / bytes + 1 ∧ IsResult input last

end

variable {State : Type} {loop : Loop State}

theorem Advances.exists_ends {bytes : Nat} (advances : loop.Advances bytes) (positive : 0 < bytes)
    (start : State) : ∃ count last, loop.Ends count start last ∧
      count ≤ byteLength (loop.place start).ahead / bytes + 1 := by
  induction pending : byteLength (loop.place start).ahead using Nat.strong_induction_on
    generalizing start with
  | _ left ih =>
      cases follows : loop.next? start with
      | none => exact ⟨1, start, .stops follows, Nat.le_add_left _ _⟩
      | some next =>
          obtain ⟨⟨text, passes⟩, further⟩ := advances follows
          have less : byteLength (loop.place next).ahead + bytes ≤ left := by
            rw [← pending, passes.ahead_eq, byteLength_append]
            rw [passes.offset_eq] at further
            omega
          obtain ⟨count, last, ends, bound⟩ := ih _ (by omega) next rfl
          refine ⟨count + 1, last, .goesOn follows ends, Nat.succ_le_succ ?_⟩
          calc count ≤ byteLength (loop.place next).ahead / bytes + 1 := bound
            _ = (byteLength (loop.place next).ahead + bytes) / bytes :=
              (Nat.add_div_right _ positive).symm
            _ ≤ left / bytes := Nat.div_le_div_right less

/-- What every iteration keeps is the same in the last state. -/
theorem Ends.eq_of_keeps {β : Type} {count : Nat} {start last : State}
    (ends : loop.Ends count start last) {result : State → β}
    (keeps : ∀ {state next}, loop.next? state = some next → result next = result state) :
    loop.next? last = none ∧ result last = result start := by
  induction ends with
  | stops isLast => exact ⟨isLast, rfl⟩
  | goesOn follows _ ih => exact ⟨ih.1, ih.2.trans (keeps follows)⟩

/-- A loop that advances computes what every iteration keeps. -/
theorem Advances.progresses {Input β : Type} {bytes : Nat} {start : Input → State}
    {IsResult : Input → State → Prop} (advances : loop.Advances bytes) (positive : 0 < bytes)
    (result : State → β)
    (keeps : ∀ {state next}, loop.next? state = some next → result next = result state)
    (isResult : ∀ input last, loop.next? last = none → result last = result (start input) →
      IsResult input last) : loop.Progresses bytes start IsResult := by
  refine ⟨advances, fun input => ?_⟩
  obtain ⟨count, last, ends, bound⟩ := advances.exists_ends positive (start input)
  obtain ⟨isLast, kept⟩ := ends.eq_of_keeps keeps
  exact ⟨count, last, ends, bound, isResult input last isLast kept⟩

end Loop

namespace Cursor

variable {cursor start stop : Cursor}

theorem length_le_byteLength (text : List Char) : text.length ≤ byteLength text := by
  induction text with
  | nil => exact Nat.le_refl _
  | cons character rest ih =>
      have positive := character.utf8Size_pos
      rw [List.length_cons, byteLength]
      omega

/-- Every character takes a byte at least. -/
theorem LeadsTo.offset_add_le {bytes : Nat} (leads : LeadsTo start stop)
    (less : stop.remaining + bytes ≤ start.remaining) : start.offset + bytes ≤ stop.offset := by
  obtain ⟨text, passes⟩ := leads
  have long := length_le_byteLength text
  rw [remaining, remaining, passes.ahead_eq, List.length_append] at less
  rw [passes.offset_eq]
  omega

/-- Read on, one character at a time, to the end or to a place that halts. -/
def seeking (halts : Cursor → Bool) : Loop Cursor where
  next? place := if place.isAtEnd || halts place then none else some place.advance
  place := id

theorem next?_seeking {halts : Cursor → Bool} {next : Cursor}
    (follows : (seeking halts).next? cursor = some next) :
    cursor.ahead ≠ [] ∧ halts cursor = false ∧ next = cursor.advance := by
  have follows : (if cursor.isAtEnd || halts cursor then none else some cursor.advance) =
    some next := follows
  split at follows
  · cases follows
  · next goesOn =>
      obtain ⟨notAtEnd, notHalted⟩ : cursor.isAtEnd = false ∧ halts cursor = false := by
        simpa using goesOn
      exact ⟨by simpa [isAtEnd] using notAtEnd, notHalted, (Option.some.inj follows).symm⟩

theorem advances_seeking (halts : Cursor → Bool) : (seeking halts).Advances 1 := by
  intro place next follows
  obtain ⟨notAtEnd, -, rfl⟩ := next?_seeking follows
  have leads := leadsTo_advance place
  exact ⟨leads, leads.offset_add_le (remaining_advance_lt notAtEnd)⟩

/-- A reader that seeks a place reads what its loop does. -/
theorem seeking_progresses {Input : Type} {halts : Cursor → Bool} {start : Input → Cursor}
    {IsResult : Input → Cursor → Prop}
    (isResult : ∀ input, IsResult input ((start input).seek halts)) :
    (seeking halts).Progresses 1 start IsResult := by
  refine (advances_seeking halts).progresses Nat.one_pos (·.seek halts) ?_ ?_
  · intro place next follows
    obtain ⟨-, notHalted, rfl⟩ := next?_seeking follows
    exact (seek_of_not_halts notHalted).symm
  · intro input last isLast sought
    have isLast : (if last.isAtEnd || halts last then none else some last.advance) = none := isLast
    have stays : last.seek halts = last := by
      cases atEnd : last.isAtEnd with
      | true => exact seek_of_ahead_nil (by simpa [isAtEnd] using atEnd)
      | false => exact seek_of_halts (by simpa [atEnd] using isLast)
    have isSought : (start input).seek halts = last := sought.symm.trans stays
    exact isSought ▸ isResult input

def commentLoop : Loop Cursor :=
  seeking (·.startsWith commentCloser)

def quotedValueLoop (quote : Char) : Loop Cursor :=
  seeking fun place => place.isOn (· == quote) && !place.isEscaped

def unquotedValueLoop : Loop Cursor :=
  seeking fun place => place.isSelfClosingEndAhead || !place.isOn isUnquotedValueCharacter

/-- The text that has been read of a run, and the place after it. -/
structure TextLoopState where
  read : List Char
  place : Cursor

/-- Read a character of a text run, or a comment. -/
def textLoop : Loop TextLoopState where
  next? state :=
    match state.place.current? with
    | none => none
    | some character =>
        if state.place.isOpeningTagAhead || state.place.isClosingTagAhead then none
        else if state.place.isCommentAhead then some ⟨state.read, state.place.skipComment⟩
        else some ⟨state.read ++ [character], state.place.advance⟩
  place := TextLoopState.place

theorem next?_textLoop {state next : TextLoopState} (follows : textLoop.next? state = some next) :
    (state.place.isCommentAhead ∧ next = ⟨state.read, state.place.skipComment⟩) ∨
      ∃ character rest, state.place.ahead = character :: rest ∧ state.place.endsTextPiece = false ∧
        next = ⟨state.read ++ [character], state.place.advance⟩ := by
  unfold textLoop at follows
  cases ahead : state.place.ahead with
  | nil => simp [current?, ahead] at follows
  | cons character rest =>
      simp only [current?, ahead, List.head?_cons] at follows
      split at follows
      · cases follows
      · next noTag =>
          split at follows
          · next isComment => exact .inl ⟨isComment, (Option.some.inj follows).symm⟩
          · next notComment =>
              refine .inr ⟨character, rest, rfl, ?_, (Option.some.inj follows).symm⟩
              simp_all [endsTextPiece]

theorem isAtTag_of_textLoop {last : TextLoopState} (isLast : textLoop.next? last = none) :
    last.place.IsAtTag := by
  unfold textLoop at isLast
  cases ahead : last.place.ahead with
  | nil => exact .inl ahead
  | cons character rest =>
      simp only [current?, ahead, List.head?_cons] at isLast
      split at isLast
      · next isTag => exact .inr (by simpa using isTag)
      · split at isLast <;> cases isLast

theorem advances_textLoop : textLoop.Advances 1 := by
  intro state next follows
  rcases next?_textLoop follows with ⟨isComment, rfl⟩ | ⟨character, rest, ahead, -, rfl⟩
  · have leads := leadsTo_skipComment state.place
    exact ⟨leads, leads.offset_add_le (remaining_skipComment_lt isComment)⟩
  · have leads := leadsTo_advance state.place
    exact ⟨leads, leads.offset_add_le (remaining_advance_lt (by simp [ahead]))⟩

theorem textLoop_progresses : textLoop.Progresses 1 (fun cursor => ⟨[], cursor⟩)
    fun cursor last => cursor.readTextPieces = (last.read, last.place) := by
  refine advances_textLoop.progresses Nat.one_pos (fun state =>
    (state.read ++ state.place.readTextPieces.1, state.place.readTextPieces.2)) ?_ ?_
  · intro state next follows
    rcases next?_textLoop follows with ⟨isComment, rfl⟩ | ⟨character, rest, ahead, goesOn, rfl⟩
    · rw [readTextPieces_at_comment isComment]
    · rw [readTextPieces_of_character ahead goesOn, List.append_assoc, List.singleton_append]
  · intro cursor last isLast kept
    rw [readTextPieces_at_tag (isAtTag_of_textLoop isLast), List.append_nil] at kept
    exact kept.symm

/-- The attributes that have been read of a tag, and the place after them. -/
structure AttributeLoopState where
  read : List Attribute
  place : Cursor

/-- Read an attribute, and what stands before it. -/
def attributeLoop : Loop AttributeLoopState where
  next? state :=
    let place := state.place.skipToAttribute
    if place.isOn isNameCharacter then
      some ⟨state.read ++ [place.readAttribute.1], place.readAttribute.2⟩
    else none
  place := AttributeLoopState.place

theorem next?_attributeLoop {state next : AttributeLoopState}
    (follows : attributeLoop.next? state = some next) :
    state.place.skipToAttribute.isOn isNameCharacter ∧
      next = ⟨state.read ++ [state.place.skipToAttribute.readAttribute.1],
        state.place.skipToAttribute.readAttribute.2⟩ := by
  obtain ⟨isOn, isNext⟩ := Option.ite_none_right_eq_some.mp follows
  exact ⟨isOn, (Option.some.inj isNext).symm⟩

theorem advances_attributeLoop : attributeLoop.Advances 1 := by
  intro state next follows
  obtain ⟨isOn, rfl⟩ := next?_attributeLoop follows
  have leads : LeadsTo state.place state.place.skipToAttribute.readAttribute.2 :=
    (leadsTo_seek _ _).trans (leadsTo_readAttribute _)
  refine ⟨leads, leads.offset_add_le ?_⟩
  exact Nat.lt_of_lt_of_le (remaining_readAttribute_lt isOn) (remaining_seek_le _ _)

theorem attributeLoop_progresses : attributeLoop.Progresses 1 (fun cursor => ⟨[], cursor⟩)
    fun cursor last => cursor.readAttributes = (last.read, last.place.skipToAttribute) := by
  refine advances_attributeLoop.progresses Nat.one_pos (fun state =>
    (state.read ++ state.place.readAttributes.1, state.place.readAttributes.2)) ?_ ?_
  · intro state next follows
    obtain ⟨isOn, rfl⟩ := next?_attributeLoop follows
    rw [readAttributes.eq_def state.place]
    simp only [isOn, dite_true, List.append_assoc, List.singleton_append]
  · intro cursor last isLast kept
    have notOn : ¬ last.place.skipToAttribute.isOn isNameCharacter := by
      intro isOn
      cases (if_pos isOn).symm.trans isLast
    rw [readAttributes.eq_def last.place] at kept
    simp only [dif_neg notOn, List.append_nil] at kept
    exact kept.symm

/-- How many inner elements are open in a raw body, which literal is open, and the place. -/
structure BodyLoopState where
  depth : Nat
  quote : Option Char
  place : Cursor

/-- Read a character of a raw body. -/
def bodyLoop (kind : RawKind) (name : List Char) : Loop BodyLoopState where
  next? state :=
    match state.place.current? with
    | none => none
    | some character =>
        (bodyStep kind name state.depth state.quote character state.place).map
          fun (depth, quote) => ⟨depth, quote, state.place.advance⟩
  place := BodyLoopState.place

section

variable {kind : RawKind} {name : List Char} {state : BodyLoopState}

theorem next?_bodyLoop_of_ahead_cons {character : Char} {rest : List Char}
    (ahead : state.place.ahead = character :: rest) : (bodyLoop kind name).next? state =
      (bodyStep kind name state.depth state.quote character state.place).map
        fun (depth, quote) => ⟨depth, quote, state.place.advance⟩ := by
  simp only [bodyLoop, current?, ahead, List.head?_cons]

theorem next?_bodyLoop {next : BodyLoopState}
    (follows : (bodyLoop kind name).next? state = some next) :
    ∃ character rest, state.place.ahead = character :: rest ∧
      bodyStep kind name state.depth state.quote character state.place =
        some (next.depth, next.quote) ∧ next.place = state.place.advance := by
  cases ahead : state.place.ahead with
  | nil => simp [bodyLoop, current?, ahead] at follows
  | cons character rest =>
      rw [next?_bodyLoop_of_ahead_cons ahead] at follows
      obtain ⟨step, isStep, rfl⟩ := Option.map_eq_some_iff.mp follows
      exact ⟨character, rest, rfl, isStep, rfl⟩

theorem advances_bodyLoop (kind : RawKind) (name : List Char) : (bodyLoop kind name).Advances 1 := by
  intro state next follows
  obtain ⟨character, rest, ahead, -, place⟩ := next?_bodyLoop follows
  have leads : LeadsTo state.place next.place := place ▸ leadsTo_advance state.place
  refine ⟨leads, leads.offset_add_le ?_⟩
  rw [place]
  exact remaining_advance_lt (by simp [ahead])

theorem seekBodyEnd_of_next?_eq_none (isLast : (bodyLoop kind name).next? state = none) :
    seekBodyEnd kind name state.place.ahead state.depth state.quote state.place = state.place := by
  cases ahead : state.place.ahead with
  | nil => rw [seekBodyEnd]
  | cons character rest =>
      rw [next?_bodyLoop_of_ahead_cons ahead, Option.map_eq_none_iff] at isLast
      rw [← ahead, seekBodyEnd_of_ahead_cons ahead, isLast]

theorem bodyLoop_progresses (kind : RawKind) (name : List Char) :
    (bodyLoop kind name).Progresses 1 (fun cursor => ⟨0, none, cursor⟩) fun cursor last =>
      cursor.readRawBody kind name =
        (⟨String.ofList (last.place.textSince cursor.offset), cursor.position⟩,
          last.place.readClosingTag.2) := by
  refine (advances_bodyLoop kind name).progresses Nat.one_pos (fun state =>
    seekBodyEnd kind name state.place.ahead state.depth state.quote state.place) ?_ ?_
  · intro state next follows
    obtain ⟨character, rest, ahead, isStep, place⟩ := next?_bodyLoop follows
    rw [seekBodyEnd_of_ahead_cons ahead, isStep, place]
  · intro cursor last isLast kept
    rw [seekBodyEnd_of_next?_eq_none isLast] at kept
    rw [readRawBody, ← kept]

end

end Cursor

end TemplateMarkup
