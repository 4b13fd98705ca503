import TemplateMarkup.Proofs.Markup.Course
import TemplateMarkup.Proofs.Markup.TagSpace

/-!
# Other white space

A source may be indented in another way.  Wherever white space does not count, any run of it may be
replaced by another one, and the source says the same: inside of tags only a separator is read, and
the texts between tags are flattened.
-/

namespace TemplateMarkup

open CharacterClass

/-- White space that does not count is met at the place: in a text run, with no `pre` or `textarea`
open, or inside of a tag and outside of quoted values. -/
inductive MeetsSpace (position : Position) (start place : Cursor) : Prop where
  | inText {tokens : List Token} {text : List Char} (reached : start.Reaches tokens text place)
      (notKept : ∀ assembly, tokens.foldlM Assembly.step (.initial position) = .ok assembly →
        assembly.keepsWhitespace = false)
  | inTag {tokens : List Token} {turn : Cursor} (runs : Cursor.Runs tokens start turn)
      (meets : turn.MeetsInTag place)

section Respacing

variable {run run' : List Char}

theorem IsSpace.noAngle (space : IsSpace run) : '<' ∉ run := fun member => by
  have isSpace := space.2 '<' member
  cases isSpace

theorem IsSpace.standsApart (space : IsSpace run) (after : List Char) :
    Cursor.StandsApart (run ++ after) := by
  obtain ⟨nonempty, all⟩ := space
  cases run with
  | nil => exact absurd rfl nonempty
  | cons first rest =>
      have uniform : IsUniform fun first =>
          !startsTagName first && !"/!-".toList.contains first := by decide
      exact (uniform.eq (all first (by simp))).trans (by decide)

theorem Assembly.step_textToken_respace {assembly : Assembly}
    (notKept : assembly.keepsWhitespace = false) (space : IsSpace run) (space' : IsSpace run')
    (before after : List Char) (ending : TextEnd) :
    assembly.step (textToken (before ++ (run' ++ after)) ending) =
      assembly.step (textToken (before ++ (run ++ after)) ending) := by
  simp only [step, textToken, addText, notKept, Bool.false_eq_true, if_false, String.toList_ofList]
  rw [WhitespacePolicy.apply_respace rfl space space']

/-- In a text run the texts differ, but not what becomes of them. -/
theorem outcome_inText {start start' place place' : Cursor} {position : Position}
    {tokens tokens' : List Token} {text after : List Char} (sourcePath : Option String)
    (reached : start.Reaches tokens text place) (reached' : start'.Reaches tokens' text place')
    (same : tokens'.map (·.reword .unplaced) = tokens.map (·.reword .unplaced))
    (notKept : ∀ assembly, tokens.foldlM Assembly.step (.initial position) = .ok assembly →
      assembly.keepsWhitespace = false)
    (space : IsSpace run) (space' : IsSpace run') (ahead : place.ahead = run ++ after)
    (ahead' : place'.ahead = run' ++ after) :
    Template.ofTokens start'.unplacedTokens .start sourcePath =
      Template.ofTokens start.unplacedTokens .start sourcePath := by
  obtain ⟨behind, passes, aheadBehind⟩ := Cursor.exists_passes ahead
  obtain ⟨behind', passes', aheadBehind'⟩ := Cursor.exists_passes ahead'
  have sameAhead : behind'.ahead = behind.ahead := aheadBehind'.trans aheadBehind.symm
  obtain ⟨pieces, ends⟩ := Cursor.readTextPieces_of_ahead_eq sameAhead
  have fold : (tokens.map (·.reword .unplaced)).foldlM Assembly.step (.initial .start) =
      Rewording.unplaced.outcome (Assembly.reword .unplaced)
        (tokens.foldlM Assembly.step (.initial position)) := by
    rw [← Assembly.foldlM_step_reword, Assembly.initial_reword]
    rfl
  rw [(reached.trans (passes.readsText space.noAngle)).unplacedTokens_eq,
    (reached'.trans (passes'.readsText space'.noAngle)).unplacedTokens_eq, same, pieces,
    Cursor.unplacedTokensAtTag_of_ahead_eq ends,
    Fork.textEnd_eq (Cursor.relates_of_ahead_eq ends), List.append_assoc, List.append_assoc]
  unfold Template.ofTokens
  rw [List.foldlM_append, List.foldlM_append, fold]
  cases done : tokens.foldlM Assembly.step (.initial position) with
  | error => rfl
  | ok assembly =>
      have notKept := ((assembly.keepsWhitespace_reword .unplaced).trans (notKept assembly done))
      show (List.foldlM Assembly.step (assembly.reword .unplaced) _ >>= _) =
        (List.foldlM Assembly.step (assembly.reword .unplaced) _ >>= _)
      rw [List.foldlM_cons, List.foldlM_cons,
        Assembly.step_textToken_respace notKept space space']

end Respacing

/-- White space that does not count may be replaced by other white space. -/
theorem Template.parse_respace {before run run' after : String} {start : Position} {place : Cursor}
    (sourcePath : Option String) (space : IsSpace run.toList) (space' : IsSpace run'.toList)
    (meets : MeetsSpace start (Cursor.atStart (before ++ run ++ after) start) place)
    (ahead : place.ahead = run.toList ++ after.toList) :
    AgreeUnplaced (parse (before ++ run' ++ after) start sourcePath)
      (parse (before ++ run ++ after) start sourcePath) := by
  have aheadStart : (Cursor.atStart (before ++ run ++ after) start).ahead =
      before.toList ++ place.ahead := by
    simp [Cursor.atStart, ahead]
  have aheadStart' : (Cursor.atStart (before ++ run' ++ after) start).ahead =
      before.toList ++ (run'.toList ++ after.toList) := by
    simp [Cursor.atStart]
  cases meets with
  | inText reached notKept =>
      obtain ⟨tokens', place', reached', same, ahead'⟩ :=
        reached.exists_of_ahead (space'.standsApart after.toList) aheadStart aheadStart'
      rw [AgreeUnplaced, outcome_parse, outcome_parse]
      exact outcome_inText sourcePath reached reached' same notKept space space' ahead ahead'
  | @inTag tokens turn runs meets =>
      obtain ⟨first, aheadFirst⟩ := runs.leadsTo.exists_ahead_eq
      obtain ⟨text, aheadTurn⟩ :=
        ((Cursor.leadsTo_readText turn).trans meets.leadsTo_readText).exists_ahead_eq
      have whole : before.toList = first ++ text := by
        refine (List.append_left_inj place.ahead).mp ?_
        rw [← aheadStart, aheadFirst, aheadTurn, List.append_assoc]
      rw [whole, List.append_assoc] at aheadStart'
      obtain ⟨tokens', turn', runs', same, aheadTurn'⟩ :=
        runs.exists_of_shares ⟨first, aheadFirst, aheadStart'⟩
      have related : (Fork.respacing space space' after.toList).Relates turn turn' :=
        ⟨text, aheadTurn.trans (congrArg (text ++ ·) ahead), aheadTurn'⟩
      refine agreeUnplaced_of_unplacedTokens ?_ sourcePath
      rw [runs.unplacedTokens_eq, runs'.unplacedTokens_eq, same,
        Cursor.unplacedTokens_respacing related meets ahead]

/-- A line ending instead of a space before an equals sign, behind a value that has white space. -/
theorem Template.parse_respace_beforeEquals :
    IsSpace " ".toList ∧ IsSpace "\r\n\t".toList ∧
      (∃ place : Cursor,
        MeetsSpace .start (Cursor.atStart ("<p><a b=\"1 2\" :href" ++ " " ++ "= c>d</a>") .start)
            place ∧
          place.ahead = " ".toList ++ "= c>d</a>".toList) ∧
      AgreeUnplaced
        (parse ("<p><a b=\"1 2\" :href" ++ "\r\n\t" ++ "= c>d</a>") .start none)
        (parse ("<p><a b=\"1 2\" :href" ++ " " ++ "= c>d</a>") .start none) := by
  let start := Cursor.atStart ("<p><a b=\"1 2\" :href" ++ " " ++ "= c>d</a>") .start
  let turn := start.readText.2.readElementStart.2
  let attributes := (turn.readText.2.skip ['<']).readName.2
  let second := attributes.skipToAttribute.readAttribute.2
  let place := second.skipToAttribute.attributeNameEnd
  have runs : Cursor.Runs _ start turn := .opening (by decide +kernel) (by decide +kernel) (.done _)
  have between : Cursor.Between place place.skipWhitespace place :=
    ⟨.refl place, Cursor.leadsTo_seek place _⟩
  have meets : turn.MeetsInTag place :=
    .opening (by decide +kernel) (.openingTag (.later (by decide +kernel)
      (.beforeValue (by decide +kernel) (.beforeEquals between))))
  have ahead : place.ahead = " ".toList ++ "= c>d</a>".toList := by decide +kernel
  have space : IsSpace " ".toList := by decide
  have space' : IsSpace "\r\n\t".toList := by decide
  exact ⟨space, space', ⟨place, .inTag runs meets, ahead⟩,
    parse_respace none space space' (.inTag runs meets) ahead⟩

end TemplateMarkup
