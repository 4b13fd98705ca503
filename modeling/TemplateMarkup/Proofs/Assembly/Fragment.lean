import TemplateMarkup.Proofs.Markup.Translation
import TemplateMarkup.Proofs.Source.Placement

/-!
# Fragments of a larger file

A fragment is read as a source whose first character does not stand at the beginning of a file.  It says
the same as if it stood there, and has the same fault if it has one; only the positions are those in the
file.  No reader asks for a position, so both readings go through the same places.
-/

namespace TemplateMarkup

/-- All positions are moved.  Texts and spans stay as they are. -/
def Rewording.moving (place : Position → Position) : Rewording where
  text := id
  place := place
  span := id
  injective := Function.injective_id
  keeps_line := @unplaced.keeps_line
  apply_policy := unplaced.apply_policy
  isRelativePath_text := unplaced.isRelativePath_text

theorem Rewording.keeps_moving_id : (Rewording.moving id).Keeps :=
  ⟨fun _ => rfl, fun _ => rfl⟩

theorem ParseError.reword_moving (place : Position → Position) (error : ParseError) :
    error.reword (.moving place) = { error with position := place error.position } := by
  rcases error with ⟨fault, position, span⟩
  cases fault <;> rfl

/-- Two cursors at one place of a fragment, of which the second counts positions in the file. -/
structure StandsIn (first : Position) (cursor other : Cursor) : Prop where
  moved : other = { cursor with position := first.movedTo cursor.position }
  counted : cursor.position.IsCounted

namespace StandsIn

variable {first : Position} {cursor other : Cursor}

theorem ahead_eq (stands : StandsIn first cursor other) : other.ahead = cursor.ahead := by
  rw [stands.moved]

theorem behind_eq (stands : StandsIn first cursor other) : other.behind = cursor.behind := by
  rw [stands.moved]

theorem advance (stands : StandsIn first cursor other) {character : Char} {rest : List Char}
    (ahead : cursor.ahead = character :: rest) : StandsIn first cursor.advance other.advance := by
  have ahead' : other.ahead = character :: rest := stands.ahead_eq.trans ahead
  rw [Cursor.advance_of_ahead_cons ahead, Cursor.advance_of_ahead_cons ahead', stands.moved]
  refine ⟨?_, stands.counted.after character rest.head?⟩
  simp only [Position.movedTo_after first stands.counted]

end StandsIn

/-- A source and the same source as a fragment whose first character stands at a position. -/
def fragmentTranslation (first : Position) : Translation where
  ending := .lineFeed
  Relates := StandsIn first
  ahead_eq stands := by rw [stands.ahead_eq, LineEnding.write_lineFeed]
  backslashesBehind_eq stands := by
    rw [Cursor.backslashesBehind, stands.behind_eq, Cursor.backslashesBehind]
  afterReturn_eq stands := by rw [Cursor.previous?, stands.behind_eq, Cursor.previous?]
  not_afterReturn isPair := nomatch isPair
  exists_step stands ahead := ⟨_, .one (stands.ahead_eq.trans ahead), stands.advance ahead⟩
  first := .moving first.movedTo
  second := .moving id
  text_eq text := by rw [LineEnding.write_lineFeed]; rfl
  place_eq stands := by rw [stands.moved]; rfl
  span_eq start stop := by rw [start.moved, stop.moved]; rfl

/-- A fragment has the same outcome as the source by itself, with all positions moved to where they are
in the file. -/
theorem Template.parse_movedTo (source : String) (first : Position) (sourcePath : Option String) :
    parse source first sourcePath =
      match parse source .start sourcePath with
      | .ok template => .ok (template.reword (.moving first.movedTo))
      | .error error => .error { error with position := first.movedTo error.position } := by
  have stands : StandsIn first (Cursor.atStart source .start) (Cursor.atStart source first) :=
    ⟨rfl, Position.isCounted_start⟩
  have tokens : (Token.scan source first).map (·.reword (.moving id)) =
      (Token.scan source .start).map (·.reword (.moving first.movedTo)) :=
    (fragmentTranslation first).tokens_eq stands
  have outcomes : (Rewording.moving id).outcome (reword (.moving id))
        (parse source first sourcePath) =
      (Rewording.moving first.movedTo).outcome (reword (.moving first.movedTo))
        (parse source .start sourcePath) := by
    unfold parse
    rw [← ofTokens_reword, ← ofTokens_reword, tokens]
    rfl
  -- On the left nothing is changed at all.
  have same : (Rewording.moving id).outcome (reword (.moving id)) (parse source first sourcePath) =
      parse source first sourcePath := by
    cases parse source first sourcePath with
    | ok template => exact congrArg Except.ok (reword_eq_self Rewording.keeps_moving_id template)
    | error error => exact congrArg Except.error (error.reword_moving id)
  rw [← same, outcomes]
  cases parse source .start sourcePath with
  | ok template => rfl
  | error error => exact congrArg Except.error (error.reword_moving first.movedTo)

end TemplateMarkup
