import TemplateMarkup.Proofs.Markup.WholeTags

/-!
# The course of reading

How far a source has been read: over whole tags, each with the text run before it, to a place where a
new run starts, and from there over characters and whole comments to a place within that run.

Such a course can be followed in every source that starts with the same text, whatever comes after the
place.  The text after it only has to stand apart: it must not complete a mark that the text before it
has begun.
-/

namespace TemplateMarkup

open CharacterClass

namespace Cursor

/-- Reading text leads from one cursor to the other.  Comments on the way leave nothing in the text. -/
inductive ReadsText : List Char → Cursor → Cursor → Prop where
  | done (cursor : Cursor) : ReadsText [] cursor cursor
  | character {character : Char} {rest text : List Char} {start stop : Cursor}
      (ahead : start.ahead = character :: rest) (goesOn : start.endsTextPiece = false)
      (later : ReadsText text start.advance stop) : ReadsText (character :: text) start stop
  | comment {text : List Char} {start stop : Cursor} (isComment : start.isCommentAhead)
      (whole : start.CommentIsWhole) (later : ReadsText text start.skipComment stop) :
      ReadsText text start stop

/-- Reading whole tags leads from one start of a text run to another. -/
inductive Runs : List Token → Cursor → Cursor → Prop where
  | done (cursor : Cursor) : Runs [] cursor cursor
  | opening {tokens : List Token} {start stop : Cursor}
      (isAhead : start.readText.2.isOpeningTagAhead)
      (whole : start.readText.2.ElementStartIsWhole)
      (later : Runs tokens start.readText.2.readElementStart.2 stop) :
      Runs (.text start.readText.1 :: .opening start.readText.2.readElementStart.1.1
        start.readText.2.readElementStart.1.2 :: tokens) start stop
  | closing {tokens : List Token} {start stop : Cursor}
      (isAhead : start.readText.2.isClosingTagAhead)
      (whole : start.readText.2.ClosingTagIsWhole)
      (later : Runs tokens start.readText.2.readClosingTag.2 stop) :
      Runs (.text start.readText.1 :: .closing start.readText.2.readClosingTag.1 :: tokens)
        start stop

/-- The place lies in a text run and outside of comments: after some whole tags, and after some text
of the run. -/
def Reaches (tokens : List Token) (text : List Char) (start place : Cursor) : Prop :=
  ∃ turn, Runs tokens start turn ∧ ReadsText text turn place

section Reading

variable {text more : List Char} {tokens later : List Token} {start middle stop : Cursor}

theorem ReadsText.trans (first : ReadsText text start middle) (second : ReadsText more middle stop) :
    ReadsText (text ++ more) start stop := by
  induction first with
  | done => exact second
  | character ahead goesOn _ ih => exact .character ahead goesOn (ih second)
  | comment isComment whole _ ih => exact .comment isComment whole (ih second)

theorem ReadsText.leadsTo (reads : ReadsText text start stop) : LeadsTo start stop := by
  induction reads with
  | done => rfl
  | character _ _ _ ih => exact (leadsTo_advance _).trans ih
  | comment _ _ _ ih => exact (leadsTo_skipComment _).trans ih

theorem Runs.leadsTo (runs : Runs tokens start stop) : LeadsTo start stop := by
  induction runs with
  | done => rfl
  | opening _ _ _ ih => exact ((leadsTo_readText _).trans (leadsTo_readElementStart _)).trans ih
  | closing _ _ _ ih => exact ((leadsTo_readText _).trans (leadsTo_readClosingTag _)).trans ih

theorem Reaches.leadsTo (reaches : Reaches tokens text start stop) : LeadsTo start stop := by
  obtain ⟨turn, runs, reads⟩ := reaches
  exact runs.leadsTo.trans reads.leadsTo

theorem Reaches.trans (reaches : Reaches tokens text start middle)
    (reads : ReadsText more middle stop) : Reaches tokens (text ++ more) start stop := by
  obtain ⟨turn, runs, first⟩ := reaches
  exact ⟨turn, runs, first.trans reads⟩

theorem readTextPieces_of_character {character : Char} {rest : List Char}
    (ahead : start.ahead = character :: rest) (goesOn : start.endsTextPiece = false) :
    start.readTextPieces =
      (character :: start.advance.readTextPieces.1, start.advance.readTextPieces.2) := by
  have sought : start.seek endsTextPiece = start.advance.seek endsTextPiece :=
    seek_of_not_halts goesOn
  obtain ⟨piece, passes⟩ := leadsTo_seek start.advance endsTextPiece
  have longer := Passes.next ahead passes
  cases isComment : (start.advance.seek endsTextPiece).isCommentAhead with
  | true =>
      rw [readTextPieces_of_comment isComment, readTextPieces_of_comment (sought ▸ isComment),
        sought, longer.textSince_eq, passes.textSince_eq]
      rfl
  | false =>
      rw [readTextPieces_of_end isComment, readTextPieces_of_end (sought ▸ isComment), sought,
        longer.textSince_eq, passes.textSince_eq]

theorem endsTextPiece_of_comment (isComment : start.isCommentAhead) : start.endsTextPiece := by
  rw [endsTextPiece, isComment, Bool.or_true]

theorem readTextPieces_at_comment (isComment : start.isCommentAhead) :
    start.readTextPieces = start.skipComment.readTextPieces := by
  have sought : start.seek endsTextPiece = start :=
    seek_of_halts (endsTextPiece_of_comment isComment)
  rw [readTextPieces_of_comment (sought.symm ▸ isComment), sought, (Passes.done start).textSince_eq]
  rfl

/-- No text is read at a tag, nor at the end of the source. -/
theorem readTextPieces_at_tag (atTag : start.IsAtTag) : start.readTextPieces = ([], start) := by
  have sought : start.seek endsTextPiece = start := by
    rcases atTag with atEnd | opening | closing
    · exact seek_of_ahead_nil atEnd
    · exact seek_of_halts (by simp [endsTextPiece, opening])
    · exact seek_of_halts (by simp [endsTextPiece, closing])
  rw [readTextPieces_of_end (sought.symm ▸ atTag.not_comment), sought,
    (Passes.done start).textSince_eq]

theorem ReadsText.readTextPieces_eq (reads : ReadsText text start stop) :
    start.readTextPieces = (text ++ stop.readTextPieces.1, stop.readTextPieces.2) := by
  induction reads with
  | done => rfl
  | character ahead goesOn _ ih =>
      rw [readTextPieces_of_character ahead goesOn, ih]
      rfl
  | comment isComment _ _ ih => rw [readTextPieces_at_comment isComment, ih]

/-- Text without marks is read character by character. -/
theorem Passes.readsText (passes : Passes text start stop) (noAngle : '<' ∉ text) :
    ReadsText text start stop := by
  induction passes with
  | done => exact .done _
  | @next character rest text start stop ahead _ ih =>
      obtain ⟨notAngle, noneLater⟩ := List.ne_and_not_mem_of_not_mem_cons noAngle
      refine .character ahead (endsTextPiece_eq_false ?_) (ih noneLater)
      rw [ahead, List.head?_cons]
      exact fun same => notAngle (Option.some.inj same).symm

theorem Runs.tokens_eq (runs : Runs tokens start stop) : start.tokens = tokens ++ stop.tokens := by
  induction runs with
  | done => rfl
  | opening isAhead _ _ ih =>
      rw [Cursor.tokens_eq, tokensAtTag, if_pos isAhead]
      simp only [ih]
      rfl
  | closing isAhead _ _ ih =>
      rw [Cursor.tokens_eq, tokensAtTag, if_neg (by simp [not_isOpeningTagAhead isAhead]),
        if_pos isAhead]
      simp only [ih]
      rfl

theorem Runs.unplacedTokens_eq (runs : Runs tokens start stop) :
    start.unplacedTokens = tokens.map (·.reword .unplaced) ++ stop.unplacedTokens := by
  rw [unplacedTokens, runs.tokens_eq, List.map_append, unplacedTokens]

/-- The tokens of a source, from the place on by what is ahead there. -/
theorem Reaches.unplacedTokens_eq (reaches : Reaches tokens text start stop) :
    start.unplacedTokens = tokens.map (·.reword .unplaced) ++
      textToken (text ++ stop.readTextPieces.1) stop.readTextPieces.2.textEnd ::
        stop.readTextPieces.2.unplacedTokensAtTag := by
  obtain ⟨turn, runs, reads⟩ := reaches
  rw [runs.unplacedTokens_eq, turn.unplacedTokens_eq, reads.readTextPieces_eq]

theorem tokens_of_openingTag (atTag : stop.isOpeningTagAhead) :
    stop.tokens = .text ⟨"", .openingTag, stop.position⟩ :: stop.tokensAtTag := by
  rw [tokens_eq, readText, readTextPieces_at_tag (.inr (.inl atTag)), textEnd, if_pos atTag]

theorem tokens_of_ahead_nil (atEnd : stop.ahead = []) :
    stop.tokens = [.text ⟨"", stop.textEnd, stop.position⟩] := by
  have notOpening : stop.isOpeningTagAhead = false := by
    simp [isOpeningTagAhead, isOn_of_ahead_nil atEnd]
  have notClosing : stop.isClosingTagAhead = false := by
    simp [isClosingTagAhead, startsWith, atEnd, closingTagOpener]
  rw [tokens_eq, readText, readTextPieces_at_tag (.inl atEnd), tokensAtTag,
    if_neg (by simp [notOpening]), if_neg (by simp [notClosing])]

/-- The tokens of a source up to a tag within a text run, and from this tag on. -/
theorem Reaches.tokens_eq (reaches : Reaches tokens text start stop)
    (atTag : stop.isOpeningTagAhead) :
    ∃ position, start.tokens =
      tokens ++ .text ⟨String.ofList text, .openingTag, position⟩ :: stop.tokensAtTag := by
  obtain ⟨turn, runs, reads⟩ := reaches
  have run : turn.readText = (⟨String.ofList text, .openingTag, turn.position⟩, stop) := by
    rw [readText, reads.readTextPieces_eq, readTextPieces_at_tag (.inr (.inl atTag)), textEnd,
      if_pos atTag, List.append_nil]
  exact ⟨turn.position, by rw [runs.tokens_eq, Cursor.tokens_eq, run]⟩

end Reading

section Following

variable {text rest rest' : List Char} {tokens : List Token} {start start' stop : Cursor}
variable {character : Char}

/-- A text that completes no mark begun before it. -/
def StandsApart (text : List Char) : Prop :=
  text.head?.all fun first => !startsTagName first && !"/!-".toList.contains first

/-- A word is found across two texts only if its later characters are found in the second one. -/
theorem isPrefixOf_of_apart {word : List Char} (nonempty : text ≠ [])
    (apart : ∀ first ∈ rest'.head?, first ∉ word.tail) (isAhead : word.isPrefixOf (text ++ rest')) :
    word.isPrefixOf (text ++ rest) := by
  have isAhead := List.isPrefixOf_iff_prefix.mp isAhead
  rw [List.isPrefixOf_iff_prefix]
  rcases Nat.le_total word.length text.length with short | long
  · have inside : word <+: text :=
      List.prefix_of_prefix_length_le isAhead (List.prefix_append _ _) short
    exact inside.trans (List.prefix_append _ _)
  · obtain ⟨left, rfl⟩ := List.prefix_of_prefix_length_le (List.prefix_append _ _) isAhead long
    have across : left <+: rest' := (List.prefix_append_right_inj text).mp isAhead
    cases left with
    | nil => simp
    | cons first left =>
        obtain ⟨after, rfl⟩ := across
        refine absurd ?_ (apart first rfl)
        cases text with
        | nil => exact absurd rfl nonempty
        | cons => simp

theorem endsTextPiece_eq_false_of_apart (apart : StandsApart rest')
    (ahead : start.ahead = character :: (text ++ rest))
    (ahead' : start'.ahead = character :: (text ++ rest')) (goesOn : start.endsTextPiece = false) :
    start'.endsTextPiece = false := by
  obtain ⟨⟨notOpening, notClosing⟩, notComment⟩ :
      (start.isOpeningTagAhead = false ∧ start.isClosingTagAhead = false) ∧
        start.isCommentAhead = false := by
    simpa [endsTextPiece] using goesOn
  have apart (first : Char) (isFirst : first ∈ rest'.head?) :
      startsTagName first = false ∧ first ∉ "/!-".toList := by
    have isApart := Option.all_eq_true_iff_get _ _ |>.mp apart
    simpa [Option.mem_def.mp isFirst] using isApart
  have notWord (word : List Char) (marks : word.tail ⊆ "/!-".toList)
      (notAhead : start.startsWith word = false) : start'.startsWith word = false := by
    rw [Bool.eq_false_iff] at notAhead ⊢
    intro isAhead
    rw [startsWith, ahead'] at isAhead
    refine notAhead ?_
    rw [startsWith, ahead]
    exact isPrefixOf_of_apart (List.cons_ne_nil _ _)
      (fun first isFirst inside => (apart first isFirst).2 (marks inside)) isAhead
  have notOpening' : start'.isOpeningTagAhead = false := by
    unfold isOpeningTagAhead at notOpening ⊢
    rw [isOn_of_ahead_cons ahead, peek?, ahead] at notOpening
    rw [isOn_of_ahead_cons ahead', peek?, ahead']
    cases text with
    | cons => exact notOpening
    | nil =>
        rw [Bool.and_eq_false_iff]
        refine .inr ?_
        show rest'[0]?.any startsTagName = false
        rw [← List.head?_eq_getElem?]
        cases isFirst : rest'.head? with
        | none => rfl
        | some first => exact (apart first isFirst).1
  rw [endsTextPiece, notOpening', isClosingTagAhead, isCommentAhead,
    notWord closingTagOpener (by decide) notClosing, notWord commentOpener (by decide) notComment]
  rfl

theorem ReadsText.exists_of_shares (reads : ReadsText text start stop) (apart : StandsApart rest')
    (shares : Shares stop.ahead rest' start start') :
    ∃ stop', ReadsText text start' stop' ∧ stop'.ahead = rest' := by
  induction reads generalizing start' with
  | done start =>
      obtain ⟨read, ahead, ahead'⟩ := shares
      have nothing : read = [] := List.append_left_eq_self.mp ahead.symm
      exact ⟨start', .done _, by rw [ahead', nothing, List.nil_append]⟩
  | @character character rest text start stop aheadStart goesOn later ih =>
      obtain ⟨read, ahead, ahead'⟩ := shares
      obtain ⟨left, aheadNext⟩ := later.leadsTo.exists_ahead_eq
      have next : start.advance.ahead = rest := by rw [advance_of_ahead_cons aheadStart]
      have whole : read = character :: left := by
        refine (List.append_left_inj stop.ahead).mp ?_
        rw [← ahead, aheadStart, ← next, aheadNext, List.cons_append]
      subst whole
      have goesOn' := endsTextPiece_eq_false_of_apart apart ahead ahead' goesOn
      have aheadNext' : start'.advance.ahead = left ++ rest' := by
        rw [advance_of_ahead_cons ahead', List.append_eq]
      obtain ⟨stop', reads', aheadStop⟩ := ih ⟨left, aheadNext, aheadNext'⟩
      exact ⟨stop', .character ahead' goesOn' reads', aheadStop⟩
  | comment isComment whole later ih =>
      obtain ⟨isComment', whole', after⟩ :=
        skipComment_of_shares isComment whole shares later.leadsTo.remaining_le
      obtain ⟨stop', reads', aheadStop⟩ := ih after
      exact ⟨stop', .comment isComment' whole' reads', aheadStop⟩

theorem exists_angle_of_closingTag (whole : start.ClosingTagIsWhole) :
    ∃ read, start.ahead = read ++ '>' :: start.readClosingTag.2.ahead := by
  obtain ⟨read, ahead⟩ := (leadsTo_closingTagEnd start).exists_ahead_eq
  exact ⟨read, by rw [ahead, ahead_closingTagEnd whole]⟩

theorem exists_angle_of_openingTag (whole : start.OpeningTagIsWhole) :
    ∃ read, start.ahead = read ++ '>' :: start.readOpeningTag.2.ahead := by
  obtain ⟨slash, -, tagEnd⟩ := ahead_openingTagEnd whole
  obtain ⟨read, ahead⟩ := (leadsTo_openingTagEnd start).exists_ahead_eq
  exact ⟨read ++ slash, by rw [ahead, tagEnd, List.append_assoc]⟩

theorem exists_angle_of_elementStart (whole : start.ElementStartIsWhole) :
    ∃ read, start.ahead = read ++ '>' :: start.readElementStart.2.ahead := by
  obtain ⟨wholeTag, wholeBody⟩ := whole
  unfold readElementStart
  simp only
  split
  · exact exists_angle_of_openingTag wholeTag
  · next kind isKind =>
      obtain ⟨-, wholeClosing⟩ := wholeBody kind isKind
      obtain ⟨read, ahead⟩ := exists_angle_of_closingTag wholeClosing
      obtain ⟨first, aheadFirst⟩ :=
        ((leadsTo_readOpeningTag start).trans (leadsTo_bodyEnd _ kind _)).exists_ahead_eq
      exact ⟨first ++ read, by rw [aheadFirst, ahead, List.append_assoc]; rfl⟩

/-- The text run before a whole tag is read alike before any rests. -/
theorem readText_of_shares {after : List Char} (shares : Shares rest rest' start start')
    (leads : ∃ read, start.readText.2.ahead = read ++ '>' :: after)
    (within : rest.length ≤ after.length) :
    start'.readText.1.reword .unplaced = start.readText.1.reword .unplaced ∧
      start'.readText.2.isOpeningTagAhead = start.readText.2.isOpeningTagAhead ∧
      start'.readText.2.isClosingTagAhead = start.readText.2.isClosingTagAhead ∧
      Shares rest rest' start.readText.2 start'.readText.2 := by
  obtain ⟨read, aheadTag⟩ := leads
  obtain ⟨first, ahead⟩ := (leadsTo_readText start).exists_ahead_eq
  rw [aheadTag, ← List.append_assoc] at ahead
  obtain ⟨left, after, related⟩ := shares.exists_fork ⟨_, ahead⟩ within
  rw [after] at aheadTag
  have atTag : Fork.Precedes ⟨'>' :: (left ++ rest), '>' :: (left ++ rest'), .angle _ _⟩
      start.readText.2 := by
    simp only [Fork.Precedes, remaining, aheadTag, List.length_append, List.length_cons]
    omega
  obtain ⟨run, ends⟩ := Fork.readText_eq related atTag
  refine ⟨run, Fork.isOpeningTagAhead_eq ends, Fork.isClosingTagAhead_eq ends,
    read ++ '>' :: left, ?_, ?_⟩
  · rw [aheadTag, List.append_assoc, List.cons_append]
  · rw [shares_of_fork _ ends aheadTag, List.append_assoc, List.cons_append]

theorem Runs.exists_of_shares (runs : Runs tokens start stop)
    (shares : Shares stop.ahead rest' start start') :
    ∃ tokens' stop', Runs tokens' start' stop' ∧
      tokens'.map (·.reword .unplaced) = tokens.map (·.reword .unplaced) ∧
      stop'.ahead = rest' := by
  induction runs generalizing start' with
  | done start =>
      obtain ⟨read, ahead, ahead'⟩ := shares
      have nothing : read = [] := List.append_left_eq_self.mp ahead.symm
      exact ⟨[], start', .done _, rfl, by rw [ahead', nothing, List.nil_append]⟩
  | @opening tokens start stop isAhead whole later ih =>
      have within := later.leadsTo.remaining_le
      obtain ⟨run, sameOpening, -, atTag⟩ :=
        readText_of_shares shares (exists_angle_of_elementStart whole) within
      obtain ⟨whole', opening, body, after⟩ := readElementStart_of_shares whole atTag within
      obtain ⟨tokens', stop', runs', same, aheadStop⟩ := ih after
      refine ⟨_, stop', .opening (sameOpening.trans isAhead) whole' runs', ?_, aheadStop⟩
      rw [List.map_cons, List.map_cons, List.map_cons, List.map_cons, same]
      exact congrArg₂ List.cons (congrArg Token.text run)
        (congrArg (· :: _) (congrArg₂ Token.opening opening body))
  | @closing tokens start stop isAhead whole later ih =>
      have within := later.leadsTo.remaining_le
      obtain ⟨run, -, sameClosing, atTag⟩ :=
        readText_of_shares shares (exists_angle_of_closingTag whole) within
      obtain ⟨whole', closing, after⟩ := readClosingTag_of_shares whole atTag within
      obtain ⟨tokens', stop', runs', same, aheadStop⟩ := ih after
      refine ⟨_, stop', .closing (sameClosing.trans isAhead) whole' runs', ?_, aheadStop⟩
      rw [List.map_cons, List.map_cons, List.map_cons, List.map_cons, same]
      exact congrArg₂ List.cons (congrArg Token.text run)
        (congrArg (· :: _) (congrArg Token.closing closing))

/-- A course to a place can be followed in every source with the same text before the place. -/
theorem Reaches.exists_of_ahead {before : List Char} (reaches : Reaches tokens text start stop)
    (apart : StandsApart rest') (ahead : start.ahead = before ++ stop.ahead)
    (ahead' : start'.ahead = before ++ rest') :
    ∃ tokens' stop', Reaches tokens' text start' stop' ∧
      tokens'.map (·.reword .unplaced) = tokens.map (·.reword .unplaced) ∧
      stop'.ahead = rest' := by
  obtain ⟨turn, runs, reads⟩ := reaches
  obtain ⟨first, aheadStart⟩ := runs.leadsTo.exists_ahead_eq
  obtain ⟨later, aheadTurn⟩ := reads.leadsTo.exists_ahead_eq
  have whole : before = first ++ later := by
    refine (List.append_left_inj stop.ahead).mp ?_
    rw [← ahead, aheadStart, aheadTurn, List.append_assoc]
  rw [whole, List.append_assoc] at ahead'
  obtain ⟨tokens', turn', runs', same, aheadTurn'⟩ :=
    runs.exists_of_shares ⟨first, aheadStart, ahead'⟩
  obtain ⟨stop', reads', aheadStop⟩ :=
    reads.exists_of_shares apart ⟨later, aheadTurn, aheadTurn'⟩
  exact ⟨tokens', stop', ⟨turn', runs', reads'⟩, same, aheadStop⟩

end Following

/-- Two courses that have read the same come to the same if the same is left to be read. -/
theorem Reaches.unplacedTokens_congr {text : List Char} {tokens tokens' : List Token}
    {start start' stop stop' : Cursor} (reaches : Reaches tokens text start stop)
    (reaches' : Reaches tokens' text start' stop')
    (same : tokens'.map (·.reword .unplaced) = tokens.map (·.reword .unplaced))
    (pieces : stop'.readTextPieces.1 = stop.readTextPieces.1)
    (ends : stop'.readTextPieces.2.ahead = stop.readTextPieces.2.ahead) :
    start'.unplacedTokens = start.unplacedTokens := by
  rw [reaches.unplacedTokens_eq, reaches'.unplacedTokens_eq, same, pieces,
    unplacedTokensAtTag_of_ahead_eq ends, Fork.textEnd_eq (relates_of_ahead_eq ends)]

end Cursor

/-- Two readings give the same template or the same fault, but for positions and spans. -/
def AgreeUnplaced (first second : Except ParseError Template) : Prop :=
  Rewording.unplaced.outcome (Template.reword .unplaced) first =
    Rewording.unplaced.outcome (Template.reword .unplaced) second

theorem Template.outcome_parse (source : String) (start : Position) (sourcePath : Option String) :
    Rewording.unplaced.outcome (reword .unplaced) (parse source start sourcePath) =
      ofTokens (Cursor.atStart source start).unplacedTokens .start sourcePath :=
  (ofTokens_reword .unplaced (Token.scan source start) start sourcePath).symm

theorem agreeUnplaced_of_unplacedTokens {source source' : String} {start : Position}
    (same : (Cursor.atStart source' start).unplacedTokens =
      (Cursor.atStart source start).unplacedTokens) (sourcePath : Option String) :
    AgreeUnplaced (Template.parse source' start sourcePath)
      (Template.parse source start sourcePath) := by
  rw [AgreeUnplaced, Template.outcome_parse, Template.outcome_parse, same]

theorem exists_ok_of_map {ε α β : Type} {change : α → β} {result : Except ε α} {value : β}
    (mapped : result.map change = .ok value) : ∃ before, result = .ok before ∧ change before = value := by
  cases result with
  | error => cases mapped
  | ok before => exact ⟨before, rfl, Except.ok.inj mapped⟩

end TemplateMarkup
