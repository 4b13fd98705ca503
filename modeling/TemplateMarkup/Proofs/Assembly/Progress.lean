import TemplateMarkup.Proofs.Assembly.Faults
import TemplateMarkup.Proofs.Markup.Loops

/-!
# Progress of the parser

The parser goes round a loop of turns.  A turn that is followed by another one has read a tag, which
takes two characters at least: an opening tag its angle and the first character of its name, a closing
tag its angle and the slash.  So there are at most half as many turns as the source has bytes, and one
more.
-/

namespace TemplateMarkup

namespace Cursor

variable {cursor : Cursor}

theorem remaining_skip_add {text : List Char} (isAhead : cursor.startsWith text) :
    (cursor.skip text).remaining + text.length = cursor.remaining := by
  rw [remaining, remaining, (passes_skip isAhead).ahead_eq, List.length_append, Nat.add_comm]

/-- An opening tag takes its angle and a character of its name. -/
theorem remaining_readOpeningTag_add_two_le (isAhead : cursor.isOpeningTagAhead) :
    cursor.readOpeningTag.2.remaining + 2 ≤ cursor.remaining := by
  obtain ⟨first, rest, ahead, starts⟩ := exists_ahead_of_isOpeningTagAhead isAhead
  have angle : cursor.startsWith ['<'] := by simp [startsWith, ahead]
  have overAngle := remaining_skip_add angle
  have onName : (cursor.skip ['<']).isOn CharacterClass.isNameCharacter := by
    have later := (passes_skip angle).ahead_eq.symm.trans ahead
    rw [isOn_of_ahead_cons (List.cons.inj later).2]
    exact isNameCharacter_of_startsTagName starts
  have overName : (cursor.skip ['<']).readName.2.remaining < (cursor.skip ['<']).remaining :=
    remaining_skipWhile_lt onName
  have overRest : LeadsTo (cursor.skip ['<']).readName.2 cursor.readOpeningTag.2 :=
    (leadsTo_readAttributes _).trans (leadsTo_skipTagEnd _)
  have left := overRest.remaining_le
  rw [List.length_singleton] at overAngle
  omega

theorem remaining_readElementStart_add_two_le (isAhead : cursor.isOpeningTagAhead) :
    cursor.readElementStart.2.remaining + 2 ≤ cursor.remaining := by
  have tag := remaining_readOpeningTag_add_two_le isAhead
  unfold readElementStart
  dsimp only
  split
  · exact tag
  · have body := remaining_readRawBody_le cursor.readOpeningTag.2
    exact Nat.le_trans (Nat.add_le_add_right (body _ _) 2) tag

/-- A closing tag takes its angle and its slash. -/
theorem remaining_readClosingTag_add_two_le (isAhead : cursor.isClosingTagAhead) :
    cursor.readClosingTag.2.remaining + 2 ≤ cursor.remaining := by
  have overOpener : (cursor.skip closingTagOpener).remaining + 2 = cursor.remaining :=
    remaining_skip_add isAhead
  have overRest : LeadsTo (cursor.skip closingTagOpener) cursor.readClosingTag.2 :=
    (leadsTo_readName _).trans (leadsTo_skipPast _ '>')
  have left := overRest.remaining_le
  omega

end Cursor

namespace Turn

/-- What the parser gives back if this is its last turn. -/
def outcome (turn : Turn) (sourcePath : Option String) : Except ParseError Template :=
  match turn.fault? with
  | some error => .error error
  | none => .ok (turn.withText.finish sourcePath)

/-- Read a text run and the tag after it. -/
def mainLoop : Loop Turn where
  next? := Turn.next?
  place := Turn.place

theorem advances_mainLoop : mainLoop.Advances 2 := by
  intro turn next follows
  have afterText := Cursor.remaining_readText_le turn.place
  have leads : Cursor.LeadsTo turn.place next.place :=
    (Cursor.leadsTo_readText _).trans (leadsTo_next? follows)
  refine ⟨leads, leads.offset_add_le ?_⟩
  rcases next?_cases follows with ⟨_, _, _, _, isAhead, place⟩ | ⟨_, _, _, isAhead, place⟩
  · rw [place]
    exact Nat.le_trans (Cursor.remaining_readElementStart_add_two_le isAhead) afterText
  · rw [place]
    exact Nat.le_trans (Cursor.remaining_readClosingTag_add_two_le isAhead) afterText

/-- What becomes of the tokens from a turn on. -/
def parsed (turn : Turn) : Except ParseError Assembly :=
  turn.place.tokens.foldlM Assembly.step turn.assembly

variable {turn next : Turn}

theorem parsed_next? (follows : turn.next? = some next) : next.parsed = turn.parsed := by
  cases parsed : turn.parsed with
  | ok final =>
      rcases next?_of_foldlM parsed with ⟨isLast, -, -⟩ | ⟨next', follows', later⟩
      · cases isLast.symm.trans follows
      · cases follows.symm.trans follows'
        exact later
  | error error =>
      rcases fault?_of_foldlM parsed with ⟨isLast, -⟩ | ⟨next', follows', later⟩
      · cases isLast.symm.trans follows
      · cases follows.symm.trans follows'
        exact later

theorem outcome_of_last (isLast : turn.next? = none) (sourcePath : Option String) :
    turn.outcome sourcePath = turn.parsed.map (·.finish sourcePath) := by
  cases parsed : turn.parsed with
  | ok final =>
      rcases next?_of_foldlM parsed with ⟨-, -, rfl⟩ | ⟨next, follows, -⟩
      · have noFault : turn.fault? = none := by
          by_contra isFault
          obtain ⟨error, isFault⟩ := Option.ne_none_iff_exists'.mp isFault
          cases parsed.symm.trans (foldlM_of_fault? isFault)
        rw [outcome, noFault]
        rfl
      · cases isLast.symm.trans follows
  | error error =>
      rcases fault?_of_foldlM parsed with ⟨-, isFault⟩ | ⟨next, follows, -⟩
      · rw [outcome, isFault]
        rfl
      · cases isLast.symm.trans follows

/-- The parser gives back what its last turn does. -/
theorem mainLoop_progresses (start : Position) (sourcePath : Option String) :
    mainLoop.Progresses 2 (initial · start) fun source last =>
      Template.parse source start sourcePath = last.outcome sourcePath := by
  refine advances_mainLoop.progresses Nat.two_pos parsed parsed_next? ?_
  intro source last isLast kept
  rw [outcome_of_last isLast, kept]
  rfl

end Turn

open Cursor in
/-- Every loop of the parser advances each time it goes on, by two bytes from one text run to the next
and by one byte elsewhere, and stops in time with what its reader reads.  So a source is parsed in at
most half as many turns as it has bytes, and one more. -/
theorem parser_progresses (start : Position) (sourcePath : Option String) :
    (Turn.mainLoop.Progresses 2 (Turn.initial · start) fun source last =>
      Template.parse source start sourcePath = last.outcome sourcePath) ∧
    (textLoop.Progresses 1 (fun cursor => ⟨[], cursor⟩) fun cursor last =>
      cursor.readTextPieces = (last.read, last.place)) ∧
    (∀ halts, (seeking halts).Progresses 1 id fun cursor last => cursor.seek halts = last) ∧
    (commentLoop.Progresses 1 (fun cursor : Cursor => cursor.skip commentOpener) fun cursor last =>
      cursor.skipComment = last.skip commentCloser) ∧
    (attributeLoop.Progresses 1 (fun cursor => ⟨[], cursor⟩) fun cursor last =>
      cursor.readAttributes = (last.read, last.place.skipToAttribute)) ∧
    (∀ quote, (quotedValueLoop quote).Progresses 1 id fun cursor last =>
      cursor.readQuotedValue quote = (last.textSince cursor.offset, last.advance)) ∧
    (unquotedValueLoop.Progresses 1 id fun cursor last =>
      cursor.readUnquotedValue = (last.textSince cursor.offset, last)) ∧
    ∀ kind name, (bodyLoop kind name).Progresses 1 (fun cursor => ⟨0, none, cursor⟩)
      fun cursor last => cursor.readRawBody kind name =
        (⟨String.ofList (last.place.textSince cursor.offset), cursor.position⟩,
          last.place.readClosingTag.2) :=
  ⟨Turn.mainLoop_progresses start sourcePath, textLoop_progresses,
    fun _ => seeking_progresses fun _ => rfl, seeking_progresses fun _ => rfl,
    attributeLoop_progresses, fun _ => seeking_progresses fun _ => rfl,
    seeking_progresses fun _ => rfl, bodyLoop_progresses⟩

end TemplateMarkup
