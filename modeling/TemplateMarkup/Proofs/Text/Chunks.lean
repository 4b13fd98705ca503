import Mathlib.Data.List.Chain
import TemplateMarkup.Proofs.Text.Respacing
import TemplateMarkup.Proofs.Text.Trimming

/-!
# Chunks

Every text is white space followed by chunks, each with the white space after it, and it is so in one
way only.  A policy keeps the chunks and says what becomes of the white space: before the first chunk,
between two chunks, and after the last one.  What it has made of a text it leaves alone.
-/

namespace TemplateMarkup

open CharacterClass

/-- Characters that are no white space, and the white space after them. -/
@[ext]
structure Chunk where
  visible : List Char
  gap : List Char
  nonempty : visible ≠ []
  isVisible : ∀ character ∈ visible, isWhitespace character = false
  isGap : ∀ character ∈ gap, isWhitespace character = true

namespace Chunk

def text (chunk : Chunk) : List Char := chunk.visible ++ chunk.gap

/-- The chunk with other white space after it. -/
def withGap (chunk : Chunk) (gap : List Char)
    (isGap : ∀ character ∈ gap, isWhitespace character = true) : Chunk :=
  { chunk with gap, isGap }

theorem any_head?_visible (chunk : Chunk) (rest : List Char) :
    (chunk.visible ++ rest).head?.any isWhitespace = false := by
  cases isVisible : chunk.visible with
  | nil => exact absurd isVisible chunk.nonempty
  | cons first later => exact chunk.isVisible first (by simp [isVisible])

theorem any_getLast?_visible (chunk : Chunk) (rest : List Char) :
    (rest ++ chunk.visible).getLast?.any isWhitespace = false := by
  rw [List.getLast?_append_of_ne_nil _ chunk.nonempty]
  cases last : chunk.visible.getLast? with
  | none => rfl
  | some character => exact chunk.isVisible character (List.mem_of_getLast? last)

end Chunk

/-- Chunks that are parted by white space.  Only the last one may have none after it. -/
abbrev AreParted (chunks : List Chunk) : Prop :=
  chunks.IsChain fun chunk _ => chunk.gap ≠ []

/-- White space, and the chunks after it. -/
@[ext]
structure ChunkedText where
  leading : List Char
  chunks : List Chunk
  isSpace : ∀ character ∈ leading, isWhitespace character = true
  areParted : AreParted chunks

namespace ChunkedText

def text (chunked : ChunkedText) : List Char :=
  chunked.leading ++ chunked.chunks.flatMap Chunk.text

end ChunkedText

theorem any_head?_flatMap_text (chunks : List Chunk) :
    (chunks.flatMap Chunk.text).head?.any isWhitespace = false := by
  cases chunks with
  | nil => rfl
  | cons chunk rest =>
      rw [List.flatMap_cons, Chunk.text, List.append_assoc]
      exact chunk.any_head?_visible _

theorem exists_chunked (text : List Char) : ∃ chunked : ChunkedText, chunked.text = text := by
  induction text with
  | nil => exact ⟨⟨[], [], nofun, .nil⟩, rfl⟩
  | cons character rest ih =>
      obtain ⟨⟨leading, chunks, isSpace, areParted⟩, rfl⟩ := ih
      cases isWhite : isWhitespace character with
      | true =>
          have isSpace' : ∀ other ∈ character :: leading, isWhitespace other = true :=
            List.forall_mem_cons.mpr ⟨isWhite, isSpace⟩
          exact ⟨⟨character :: leading, chunks, isSpace', areParted⟩, rfl⟩
      | false =>
          -- The character joins the chunk it stands at, or is a chunk by itself.
          by_cases joins : leading = [] ∧ chunks ≠ []
          · obtain ⟨rfl, nonempty⟩ := joins
            obtain ⟨first, later, rfl⟩ := List.exists_cons_of_ne_nil nonempty
            have visible : ∀ other ∈ character :: first.visible, isWhitespace other = false :=
              List.forall_mem_cons.mpr ⟨isWhite, first.isVisible⟩
            have parted : AreParted
                (⟨character :: first.visible, first.gap, nofun, visible, first.isGap⟩ :: later) := by
              cases later with
              | nil => exact .singleton _
              | cons second later =>
                  rw [AreParted, List.isChain_cons_cons] at areParted ⊢
                  exact areParted
            exact ⟨⟨[], _, nofun, parted⟩, rfl⟩
          · have visible : ∀ other ∈ [character], isWhitespace other = false := by simpa using isWhite
            have parted : AreParted (⟨[character], leading, nofun, visible, isSpace⟩ :: chunks) := by
              cases chunks with
              | nil => exact .singleton _
              | cons next later =>
                  exact .cons_cons (fun isEmpty => joins ⟨isEmpty, List.cons_ne_nil _ _⟩) areParted
            refine ⟨⟨[], _, nofun, parted⟩, ?_⟩
            simp [ChunkedText.text, Chunk.text]

/-- Nothing visible comes directly after the visible part of a chunk. -/
theorem AreParted.any_head?_gap {chunk : Chunk} {rest : List Chunk}
    (parted : AreParted (chunk :: rest)) :
    (chunk.gap ++ rest.flatMap Chunk.text).head?.any (!isWhitespace ·) = false := by
  cases isGap : chunk.gap with
  | nil =>
      cases rest with
      | nil => rfl
      | cons next later => exact absurd isGap (List.isChain_cons_cons.mp parted).1
  | cons first later => simpa using chunk.isGap first (by simp [isGap])

theorem flatMap_text_injective {chunks chunks' : List Chunk} (parted : AreParted chunks)
    (parted' : AreParted chunks') (same : chunks.flatMap Chunk.text = chunks'.flatMap Chunk.text) :
    chunks = chunks' := by
  have nonempty (chunk : Chunk) (rest : List Chunk) : (chunk :: rest).flatMap Chunk.text ≠ [] := by
    simp [Chunk.text, chunk.nonempty]
  induction chunks generalizing chunks' with
  | nil =>
      cases chunks' with
      | nil => rfl
      | cons chunk rest => exact absurd same.symm (nonempty chunk rest)
  | cons chunk rest ih =>
      cases chunks' with
      | nil => exact absurd same (nonempty chunk rest)
      | cons chunk' rest' =>
          simp only [List.flatMap_cons, Chunk.text, List.append_assoc] at same
          have visible (chunk : Chunk) :
              ∀ character ∈ chunk.visible, (!isWhitespace character) = true := by
            simpa using chunk.isVisible
          obtain ⟨sameVisible, same⟩ := eq_of_append_eq_append (visible chunk) (visible chunk')
            parted.any_head?_gap parted'.any_head?_gap same
          obtain ⟨sameGap, same⟩ := eq_of_append_eq_append chunk.isGap chunk'.isGap
            (any_head?_flatMap_text rest) (any_head?_flatMap_text rest') same
          have sameRest : rest = rest' := ih parted.tail parted'.tail same
          rw [Chunk.ext sameVisible sameGap, sameRest]

theorem ChunkedText.text_injective : Function.Injective text := by
  intro chunked chunked' same
  obtain ⟨sameLeading, same⟩ := eq_of_append_eq_append chunked.isSpace chunked'.isSpace
    (any_head?_flatMap_text _) (any_head?_flatMap_text _) same
  exact ChunkedText.ext sameLeading
    (flatMap_text_injective chunked.areParted chunked'.areParted same)

namespace WhitespacePolicy

/-- White space at an end of a text is dropped with an end that is stripped, and is a space
otherwise. -/
def atEnd (strip : Bool) (gap : List Char) : List Char :=
  if gap = [] ∨ strip then [] else [' ']

/-- White space between two chunks is a space if the interior is flattened, and is kept otherwise. -/
def inside (policy : WhitespacePolicy) (gap : List Char) : List Char :=
  if policy.flattenInterior then [' '] else gap

theorem isSpace_atEnd (strip : Bool) (gap : List Char) :
    ∀ character ∈ atEnd strip gap, isWhitespace character = true := by
  unfold atEnd
  split
  · exact nofun
  · exact List.forall_mem_singleton.mpr rfl

theorem isSpace_inside (policy : WhitespacePolicy) {gap : List Char}
    (isGap : ∀ character ∈ gap, isWhitespace character = true) :
    ∀ character ∈ policy.inside gap, isWhitespace character = true := by
  unfold inside
  split
  · exact List.forall_mem_singleton.mpr rfl
  · exact isGap

theorem inside_ne_nil (policy : WhitespacePolicy) {gap : List Char} (nonempty : gap ≠ []) :
    policy.inside gap ≠ [] := by
  unfold inside
  split
  · exact List.cons_ne_nil _ _
  · exact nonempty

theorem atEnd_atEnd (strip : Bool) (gap : List Char) :
    atEnd strip (atEnd strip gap) = atEnd strip gap := by
  by_cases isNone : gap = [] ∨ strip <;> cases strip <;> simp_all [atEnd]

theorem inside_inside (policy : WhitespacePolicy) (gap : List Char) :
    policy.inside (policy.inside gap) = policy.inside gap := by
  cases flattens : policy.flattenInterior <;> simp [inside, flattens]

/-- Each chunk with what becomes of the white space after it. -/
def normalizeChunks (policy : WhitespacePolicy) : List Chunk → List Chunk
  | [] => []
  | [last] => [last.withGap (atEnd policy.stripTrailing last.gap) (isSpace_atEnd _ _)]
  | chunk :: next :: rest =>
      chunk.withGap (policy.inside chunk.gap) (policy.isSpace_inside chunk.isGap) ::
        normalizeChunks policy (next :: rest)

theorem normalizeChunks_eq_nil_iff (policy : WhitespacePolicy) {chunks : List Chunk} :
    policy.normalizeChunks chunks = [] ↔ chunks = [] := by
  cases chunks with
  | nil => exact Iff.rfl
  | cons chunk rest => cases rest <;> exact ⟨nofun, nofun⟩

theorem areParted_normalizeChunks (policy : WhitespacePolicy) {chunks : List Chunk}
    (parted : AreParted chunks) : AreParted (policy.normalizeChunks chunks) := by
  induction parted with
  | nil => exact .nil
  | singleton => exact .singleton _
  | @cons_cons chunk next rest isGap _ ih =>
      rw [normalizeChunks]
      have nonempty := policy.inside_ne_nil isGap
      cases rest with
      | nil => exact .cons_cons nonempty ih
      | cons => exact .cons_cons nonempty ih

theorem normalizeChunks_normalizeChunks (policy : WhitespacePolicy) (chunks : List Chunk) :
    policy.normalizeChunks (policy.normalizeChunks chunks) = policy.normalizeChunks chunks := by
  induction chunks with
  | nil => rfl
  | cons chunk rest ih =>
      cases rest with
      | nil =>
          simp only [normalizeChunks, Chunk.withGap, atEnd_atEnd]
      | cons next rest =>
          obtain ⟨next', rest', more⟩ : ∃ next' rest',
              policy.normalizeChunks (next :: rest) = next' :: rest' :=
            List.exists_cons_of_ne_nil (mt policy.normalizeChunks_eq_nil_iff.mp (List.cons_ne_nil _ _))
          rw [normalizeChunks, more, normalizeChunks, ← more, ih]
          simp only [Chunk.withGap, inside_inside]

end WhitespacePolicy

namespace ChunkedText

/-- What a policy makes of a chunked text.  White space without chunks is at both ends of the text. -/
def normalize (policy : WhitespacePolicy) (chunked : ChunkedText) : ChunkedText where
  leading :=
    match chunked.chunks with
    | [] => WhitespacePolicy.atEnd (policy.stripLeading || policy.stripTrailing) chunked.leading
    | _ :: _ => WhitespacePolicy.atEnd policy.stripLeading chunked.leading
  chunks := policy.normalizeChunks chunked.chunks
  isSpace := by
    split
    · exact WhitespacePolicy.isSpace_atEnd _ _
    · exact WhitespacePolicy.isSpace_atEnd _ _
  areParted := policy.areParted_normalizeChunks chunked.areParted

theorem normalize_normalize (policy : WhitespacePolicy) (chunked : ChunkedText) :
    (chunked.normalize policy).normalize policy = chunked.normalize policy := by
  refine ChunkedText.ext ?_ (policy.normalizeChunks_normalizeChunks chunked.chunks)
  obtain ⟨leading, chunks, isSpace, areParted⟩ := chunked
  cases chunks with
  | nil => exact WhitespacePolicy.atEnd_atEnd _ leading
  | cons chunk rest => cases rest <;> exact WhitespacePolicy.atEnd_atEnd _ leading

end ChunkedText

/-- The chunks with the white space between them. -/
def innerText : List Chunk → List Char
  | [] => []
  | [last] => last.visible
  | chunk :: next :: rest => chunk.text ++ innerText (next :: rest)

/-- The white space after the last chunk. -/
def trailingGap : List Chunk → List Char
  | [] => []
  | [last] => last.gap
  | _ :: next :: rest => trailingGap (next :: rest)

theorem flatMap_text_eq_append (chunks : List Chunk) :
    chunks.flatMap Chunk.text = innerText chunks ++ trailingGap chunks := by
  induction chunks with
  | nil => rfl
  | cons chunk rest ih =>
      cases rest with
      | nil => simp [innerText, trailingGap, Chunk.text]
      | cons next rest => rw [List.flatMap_cons, ih, innerText, trailingGap, List.append_assoc]

theorem isSpace_trailingGap (chunks : List Chunk) :
    ∀ character ∈ trailingGap chunks, isWhitespace character = true := by
  induction chunks with
  | nil => exact nofun
  | cons chunk rest ih =>
      cases rest with
      | nil => exact chunk.isGap
      | cons next rest => exact ih

theorem any_head?_innerText (chunks : List Chunk) :
    (innerText chunks).head?.any isWhitespace = false := by
  cases chunks with
  | nil => rfl
  | cons chunk rest =>
      cases rest with
      | nil => simpa [innerText] using chunk.any_head?_visible []
      | cons next rest =>
          rw [innerText, Chunk.text, List.append_assoc]
          exact chunk.any_head?_visible _

theorem innerText_ne_nil (chunk : Chunk) (rest : List Chunk) : innerText (chunk :: rest) ≠ [] := by
  cases rest with
  | nil => exact chunk.nonempty
  | cons next rest => simp [innerText, Chunk.text, chunk.nonempty]

theorem any_getLast?_innerText (chunks : List Chunk) :
    (innerText chunks).getLast?.any isWhitespace = false := by
  induction chunks with
  | nil => rfl
  | cons chunk rest ih =>
      cases rest with
      | nil => simpa [innerText] using chunk.any_getLast?_visible []
      | cons next rest =>
          rw [innerText, List.getLast?_append_of_ne_nil _ (innerText_ne_nil next rest)]
          exact ih

/-- The core of a text is what is between its first and its last visible character. -/
theorem ChunkedText.trimEnds_text (chunked : ChunkedText) :
    trimEnds isWhitespace chunked.text = innerText chunked.chunks := by
  rw [text, flatMap_text_eq_append]
  exact trimEnds_append_append chunked.isSpace (isSpace_trailingGap _) (any_head?_innerText _)
    (any_getLast?_innerText _)

namespace WhitespacePolicy

theorem flatten_visible {visible : List Char}
    (isVisible : ∀ character ∈ visible, isWhitespace character = false) (rest : List Char) :
    flatten (visible ++ rest) = visible ++ flatten rest := by
  induction visible with
  | nil => rfl
  | cons character later ih =>
      obtain ⟨isFirst, areLater⟩ := List.forall_mem_cons.mp isVisible
      rw [List.cons_append, flatten, isFirst, if_neg Bool.false_ne_true, ih areLater,
        List.cons_append]

theorem flatten_gap {gap rest : List Char} (space : IsSpace gap)
    (ends : rest.head?.any isWhitespace = false) : flatten (gap ++ rest) = ' ' :: flatten rest := by
  rw [space.flatten_append, flatten, ends, if_pos (by rfl), if_neg Bool.false_ne_true]

theorem innerText_normalizeChunks (policy : WhitespacePolicy) {chunks : List Chunk}
    (parted : AreParted chunks) :
    innerText (policy.normalizeChunks chunks) =
      if policy.flattenInterior then flatten (innerText chunks) else innerText chunks := by
  induction parted with
  | nil => simp [normalizeChunks, innerText, flatten]
  | singleton last =>
      have flat := flatten_visible last.isVisible []
      rw [List.append_nil] at flat
      simp [normalizeChunks, innerText, Chunk.withGap, flat, flatten]
  | @cons_cons chunk next rest isGap _ ih =>
      have split : innerText (policy.normalizeChunks (chunk :: next :: rest)) =
          chunk.visible ++ (policy.inside chunk.gap ++
            innerText (policy.normalizeChunks (next :: rest))) := by
        cases rest <;> simp [normalizeChunks, innerText, Chunk.text, Chunk.withGap]
      rw [split, ih, innerText, Chunk.text, List.append_assoc, inside,
        flatten_visible chunk.isVisible,
        flatten_gap ⟨isGap, chunk.isGap⟩ (any_head?_innerText _)]
      split <;> rfl

theorem trailingGap_normalizeChunks (policy : WhitespacePolicy) (chunks : List Chunk) :
    trailingGap (policy.normalizeChunks chunks) =
      atEnd policy.stripTrailing (trailingGap chunks) := by
  induction chunks with
  | nil => simp [normalizeChunks, trailingGap, atEnd]
  | cons chunk rest ih =>
      cases rest with
      | nil => rfl
      | cons next rest =>
          rw [trailingGap, ← ih]
          cases rest <;> rfl

/-- What remains at an end depends on whether there is white space. -/
theorem edge_eq_atEnd (strip : Bool) (gap : List Char) : edge strip (!gap.isEmpty) = atEnd strip gap := by
  cases gap <;> cases strip <;> rfl

end WhitespacePolicy

theorem any_head?_space {space rest : List Char}
    (isSpace : ∀ character ∈ space, isWhitespace character = true)
    (ends : rest.head?.any isWhitespace = false) :
    (space ++ rest).head?.any isWhitespace = !space.isEmpty := by
  cases space with
  | nil => exact ends
  | cons first later => exact isSpace first List.mem_cons_self

theorem any_getLast?_space {space rest : List Char}
    (isSpace : ∀ character ∈ space, isWhitespace character = true)
    (ends : rest.getLast?.any isWhitespace = false) :
    (rest ++ space).getLast?.any isWhitespace = !space.isEmpty := by
  have isSpace' : ∀ character ∈ space.reverse, isWhitespace character = true :=
    fun character member => isSpace character (List.mem_reverse.mp member)
  have ends' : rest.reverse.head?.any isWhitespace = false := by rwa [List.head?_reverse]
  have reversed := any_head?_space isSpace' ends'
  rwa [← List.reverse_append, List.head?_reverse, List.isEmpty_reverse] at reversed

/-- A policy makes of a text what becomes of its chunks and of the white space around them. -/
theorem ChunkedText.apply_text (policy : WhitespacePolicy) (chunked : ChunkedText) :
    policy.apply chunked.text = (chunked.normalize policy).text := by
  have core := chunked.trimEnds_text
  obtain ⟨leading, chunks, isSpace, areParted⟩ := chunked
  cases chunks with
  | nil =>
      have whole : text ⟨leading, [], isSpace, areParted⟩ = leading := List.append_nil leading
      rw [WhitespacePolicy.apply, core, whole]
      dsimp only
      rw [if_pos (by rfl), WhitespacePolicy.edge_eq_atEnd]
      exact (List.append_nil _).symm
  | cons chunk rest =>
      have noSpace := any_head?_flatMap_text (chunk :: rest)
      have isNonempty : (innerText (chunk :: rest)).isEmpty = false :=
        List.isEmpty_eq_false_iff.mpr (innerText_ne_nil chunk rest)
      have atStart : (text ⟨leading, chunk :: rest, isSpace, areParted⟩).head?.any isWhitespace =
          !leading.isEmpty := any_head?_space isSpace noSpace
      have atEnd : (text ⟨leading, chunk :: rest, isSpace, areParted⟩).getLast?.any isWhitespace =
          !(trailingGap (chunk :: rest)).isEmpty := by
        rw [text, flatMap_text_eq_append, ← List.append_assoc]
        refine any_getLast?_space (isSpace_trailingGap _) ?_
        rw [List.getLast?_append_of_ne_nil _ (innerText_ne_nil chunk rest)]
        exact any_getLast?_innerText _
      rw [WhitespacePolicy.apply, core]
      dsimp only
      rw [isNonempty, if_neg Bool.false_ne_true, atStart, atEnd, WhitespacePolicy.edge_eq_atEnd,
        WhitespacePolicy.edge_eq_atEnd, ← policy.innerText_normalizeChunks areParted,
        ← policy.trailingGap_normalizeChunks, List.append_assoc, ← flatMap_text_eq_append]
      rfl

/-- Every text is chunked in one way, a policy does to the chunks and the white space what it says, and
it leaves alone what it has made. -/
theorem WhitespacePolicy.apply_chunked (policy : WhitespacePolicy) :
    (∀ text, ∃! chunked : ChunkedText, chunked.text = text) ∧
      (∀ chunked : ChunkedText, policy.apply chunked.text = (chunked.normalize policy).text) ∧
        ∀ text, policy.apply (policy.apply text) = policy.apply text := by
  refine ⟨fun text => ?_, fun chunked => chunked.apply_text policy, fun text => ?_⟩
  · obtain ⟨chunked, isText⟩ := exists_chunked text
    refine ⟨chunked, isText, fun other isText' => ?_⟩
    exact ChunkedText.text_injective (isText'.trans isText.symm)
  · obtain ⟨chunked, rfl⟩ := exists_chunked text
    rw [chunked.apply_text, (chunked.normalize policy).apply_text, chunked.normalize_normalize]

end TemplateMarkup
