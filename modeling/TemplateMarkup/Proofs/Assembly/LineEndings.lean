import TemplateMarkup.Proofs.Markup.Translation

/-!
# Line endings do not change a template

A source whose line feeds are written after carriage returns says the same as the source itself: the
same template, with the same positions, in which every text has its line feeds written in the same way.
A fault is found at the same place.
-/

namespace TemplateMarkup

open CharacterClass

namespace LineEnding

variable (ending : LineEnding)

def writeText (text : String) : String :=
  String.ofList (ending.write text.toList)

@[simp]
theorem toList_writeText (text : String) :
    (ending.writeText text).toList = ending.write text.toList :=
  String.toList_ofList

theorem writeText_lineFeed (text : String) : lineFeed.writeText text = text := by
  rw [writeText, write_lineFeed, String.ofList_toList]

end LineEnding

/-- The line feeds of all texts are written in one of the two ways.  Spans are forgotten, since the
same text takes more bytes when it is written in pairs. -/
def Rewording.lineEndings (ending : LineEnding) : Rewording where
  text := ending.writeText
  place := id
  span _ := ⟨0, 0⟩
  injective := by
    intro first second equal
    have equal := congrArg String.toList equal
    rw [LineEnding.toList_writeText, LineEnding.toList_writeText] at equal
    exact String.toList_inj.mp (ending.write_injective equal)
  keeps_line oneLine := by
    rw [LineEnding.writeText, LineEnding.write_eq_self _ oneLine, String.ofList_toList]
  apply_policy policy written := by
    rw [LineEnding.toList_writeText, LineEnding.apply_write, LineEnding.writeText,
      String.toList_ofList]
  isRelativePath_text path := by
    unfold Destination.isRelativePath
    rw [LineEnding.toList_writeText, LineEnding.any_head?_write _ (by decide)]

namespace LineEnding

variable {cursor other : Cursor}

/-- Both cursors have read the same text and have the same text ahead of them, but for line feeds that
the second source writes in pairs. -/
structure Pairs (cursor other : Cursor) : Prop where
  ahead : other.ahead = pair.write cursor.ahead
  behind : other.behind = cursor.behind.flatMap (List.reverse ∘ pair.letters)
  position : other.position = cursor.position
  noReturnAhead : '\r' ∉ cursor.ahead
  noReturnBehind : '\r' ∉ cursor.behind

theorem takeWhile_backslash (behind : List Char) :
    (behind.flatMap (List.reverse ∘ pair.letters)).takeWhile (· == '\\') =
      behind.takeWhile (· == '\\') := by
  induction behind with
  | nil => rfl
  | cons character rest ih =>
      by_cases lineFeed : character = '\n'
      · subst lineFeed
        rfl
      · rw [List.flatMap_cons, Function.comp_apply, letters_of_ne pair lineFeed,
          List.reverse_singleton, List.singleton_append, List.takeWhile_cons, List.takeWhile_cons, ih]

theorem after_of_ne_return {position : Position} {character : Char} (notReturn : character ≠ '\r')
    (following : Option Char) :
    position.after character following =
      if isLineBreak character then position.nextLine else position.nextColumn := by
  rw [Position.after, beq_false_of_ne notReturn, Bool.false_and, if_neg (by simp)]

namespace Pairs

theorem previous?_ne_return (related : Pairs cursor other) :
    cursor.previous? ≠ some '\r' ∧ other.previous? ≠ some '\r' := by
  unfold Cursor.previous?
  have noReturn := related.noReturnBehind
  rw [related.behind]
  cases behind : cursor.behind with
  | nil => exact ⟨nofun, nofun⟩
  | cons character rest =>
      rw [behind] at noReturn
      have notReturn : some character ≠ some '\r' := fun same =>
        List.ne_of_not_mem_cons noReturn (Option.some.inj same).symm
      by_cases lineFeed : character = '\n'
      · subst lineFeed
        exact ⟨notReturn, notReturn⟩
      · rw [List.flatMap_cons, Function.comp_apply, letters_of_ne pair lineFeed]
        exact ⟨notReturn, notReturn⟩

theorem exists_step (related : Pairs cursor other) {character : Char} {rest : List Char}
    (ahead : cursor.ahead = character :: rest) :
    ∃ place, Cursor.Passes (pair.letters character) other place ∧ Pairs cursor.advance place := by
  have aheadOther := related.ahead
  have noReturn := related.noReturnAhead
  rw [ahead] at aheadOther noReturn
  obtain ⟨notReturn, noReturnRest⟩ := List.ne_and_not_mem_of_not_mem_cons noReturn
  have noReturnRead : '\r' ∉ character :: cursor.behind :=
    List.not_mem_cons_of_ne_of_not_mem notReturn related.noReturnBehind
  rw [Cursor.advance_of_ahead_cons ahead]
  by_cases lineFeed : character = '\n'
  · subst lineFeed
    rw [pair_write_cons_lineFeed] at aheadOther
    have aheadNext : other.advance.ahead = '\n' :: pair.write rest := by
      rw [Cursor.advance_of_ahead_cons aheadOther]
    refine ⟨other.advance.advance, .next aheadOther (.one aheadNext), ?_⟩
    rw [Cursor.advance_of_ahead_cons aheadNext, Cursor.advance_of_ahead_cons aheadOther]
    refine ⟨rfl, ?_, ?_, noReturnRest, noReturnRead⟩
    · rw [List.flatMap_cons, related.behind]
      rfl
    · -- The carriage return moves nothing, and the line feed ends the line in both sources.
      rw [related.position]
      rfl
  · rw [write_cons_of_ne pair lineFeed] at aheadOther
    refine ⟨other.advance, ?_, ?_⟩
    · rw [letters_of_ne pair lineFeed]
      exact .one aheadOther
    · rw [Cursor.advance_of_ahead_cons aheadOther]
      refine ⟨rfl, ?_, ?_, noReturnRest, noReturnRead⟩
      · rw [List.flatMap_cons, related.behind, Function.comp_apply, letters_of_ne pair lineFeed]
        rfl
      · rw [related.position, after_of_ne_return notReturn.symm, after_of_ne_return notReturn.symm]

end Pairs

/-- A source and the same source with line feeds in pairs. -/
def pairTranslation : Translation where
  ending := pair
  Relates := Pairs
  ahead_eq related := related.ahead
  backslashesBehind_eq related := by
    rw [Cursor.backslashesBehind, related.behind, takeWhile_backslash, Cursor.backslashesBehind]
  afterReturn_eq related := by
    obtain ⟨here, there⟩ := related.previous?_ne_return
    rw [beq_false_of_ne here, beq_false_of_ne there]
  not_afterReturn _ related := related.previous?_ne_return.1
  exists_step related ahead := related.exists_step ahead
  first := .lineEndings pair
  second := .lineEndings lineFeed
  text_eq text := by
    show lineFeed.writeText _ = pair.writeText _
    rw [writeText_lineFeed, writeText, String.toList_ofList]
  place_eq related := related.position
  span_eq _ _ := rfl

theorem lineFeed_keeps : (Rewording.lineEndings lineFeed).Keeps :=
  ⟨writeText_lineFeed, fun _ => rfl⟩

theorem scan_pair {source : String} (noReturn : '\r' ∉ source.toList) (start : Position) :
    (Token.scan (pair.writeText source) start).map (·.reword (.lineEndings lineFeed)) =
      (Token.scan source start).map (·.reword (.lineEndings pair)) := by
  have related : Pairs (Cursor.atStart source start)
      (Cursor.atStart (pair.writeText source) start) :=
    ⟨toList_writeText pair source, rfl, rfl, noReturn, List.not_mem_nil⟩
  exact pairTranslation.tokens_eq related

theorem outcome_parse_pair {source : String} (noReturn : '\r' ∉ source.toList) (start : Position)
    (sourcePath : Option String) :
    (Rewording.lineEndings lineFeed).outcome (Template.reword (.lineEndings lineFeed))
        (Template.parse (pair.writeText source) start sourcePath) =
      (Rewording.lineEndings pair).outcome (Template.reword (.lineEndings pair))
        (Template.parse source start sourcePath) := by
  unfold Template.parse
  rw [← Template.ofTokens_reword, ← Template.ofTokens_reword, scan_pair noReturn]
  rfl

end LineEnding

/-- A source with its line feeds in pairs is read as the same template with its line feeds in pairs, or
has the same fault at the same position. -/
theorem Template.parse_writeText_pair (source : String) (start : Position)
    (sourcePath : Option String) (noReturn : '\r' ∉ source.toList) :
    (∀ template, parse source start sourcePath = .ok template →
      parse (LineEnding.pair.writeText source) start sourcePath =
        .ok (template.reword (.lineEndings .pair))) ∧
    ∀ error, parse source start sourcePath = .error error →
      ∃ error', parse (LineEnding.pair.writeText source) start sourcePath = .error error' ∧
        error'.fault.code = error.fault.code ∧ error'.position = error.position := by
  have outcomes := LineEnding.outcome_parse_pair noReturn start sourcePath
  constructor
  · intro template isTemplate
    rw [isTemplate] at outcomes
    cases paired : parse (LineEnding.pair.writeText source) start sourcePath with
    | error error =>
        rw [paired] at outcomes
        cases outcomes
    | ok template' =>
        rw [paired] at outcomes
        -- On the left nothing has been reworded but spans, and a template has none.
        have equal := Except.ok.inj outcomes
        rw [Template.reword_eq_self LineEnding.lineFeed_keeps] at equal
        rw [equal]
  · intro error isError
    rw [isError] at outcomes
    cases paired : parse (LineEnding.pair.writeText source) start sourcePath with
    | ok template =>
        rw [paired] at outcomes
        cases outcomes
    | error error' =>
        rw [paired] at outcomes
        have equal := Except.error.inj outcomes
        refine ⟨error', rfl, ?_, ?_⟩
        · rw [← StructuralFault.code_reword (.lineEndings .lineFeed) error'.fault,
            ← StructuralFault.code_reword (.lineEndings .pair) error.fault]
          exact congrArg (·.fault.code) equal
        · exact congrArg (·.position) equal

/-- A line break in an element that keeps white space. -/
def brokenLine : Template where
  sourcePath := none
  main :=
    { root := ⟨.bare "" .start, [.element (.bare "pre" .start) [.text "\n" ⟨1, 6⟩]]⟩
      hasDefaultSlot := false
      namedSlots := .empty
      propTypes := none }
  inlineComponents := .empty
  buckets := .empty
  imports := []

theorem Template.parse_brokenLine :
    '\r' ∉ "<pre>\n".toList ∧ parse "<pre>\n" .start none = .ok brokenLine ∧
      parse "<pre>\r\n" .start none = .ok (brokenLine.reword (.lineEndings .pair)) := by
  have noReturn : '\r' ∉ "<pre>\n".toList := by decide
  have tokens : Token.scan "<pre>\n" .start =
      [.text ⟨"", .openingTag, .start⟩, .opening ⟨.bare "pre" .start, false, ⟨0, 5⟩⟩ none,
        .text ⟨"\n", .endOfInput, ⟨1, 6⟩⟩] := by decide +kernel
  have plain : parse "<pre>\n" .start none = .ok brokenLine := by
    rw [parse, tokens]
    rfl
  have source : LineEnding.pair.writeText "<pre>\n" = "<pre>\r\n" := by decide
  have paired := (parse_writeText_pair "<pre>\n" .start none noReturn).1 brokenLine plain
  rw [source] at paired
  exact ⟨noReturn, plain, paired⟩

end TemplateMarkup
