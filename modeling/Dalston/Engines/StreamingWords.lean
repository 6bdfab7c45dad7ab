import Dalston.Model.Rounding
import Dalston.Model.TextWrap

/-!
# Words of a streaming decoder

A streaming decoder answers each audio chunk with its best hypothesis for everything it has
heard. The engine compares the text with the one before and emits the words of what was added.

## Implementation notes

A chunk is what the loop looks at: its size, whether the buffer made features of it, and the
hypotheses that came back. The tokenizer of the model is a parameter.
-/

namespace Dalston.Engines.StreamingWords

open Foundation Model Model.TextWrap

structure NeMoWordResult where
  word : Text
  start : Rat
  stop : Rat
  confidence : Option Rat := none

/-- `text.split()`. -/
def splitWords (text : Text) : List Text := tokens isSpace text

/-- What a step adds to the text before it, or the whole text where it does not extend it. -/
def newText (currentText previousText : Text) : Text :=
  if previousText.isPrefixOf currentText then
    (currentText.drop previousText.length).dropWhile isSpace
  else
    currentText

def emitNewWords (currentText previousText : Text) (stepStart chunkDur : Rat) :
    List NeMoWordResult :=
  if currentText = [] ∨ currentText = previousText then
    []
  else
    let newWords := splitWords (newText currentText previousText)
    let wordDur := chunkDur / newWords.length
    newWords.zipIdx.map fun p =>
      let t := stepStart + p.2 * wordDur
      { word := p.1, start := roundMs t, stop := roundMs (t + wordDur) }

/-- A hypothesis of the decoder, with the fields that hold its text. -/
structure Hypothesis where
  text : Option Text
  ySequence : Option (List Int)

structure Chunk where
  size : Nat
  hasFeatures : Bool
  bestHyp : List Hypothesis

section Loop

variable (idsToText : List Int → Text)

def Hypothesis.currText (hyp : Hypothesis) : Text :=
  match hyp.text with
  | some (c :: text) => c :: text
  | _ =>
    match hyp.ySequence with
    | some ids => idsToText ids
    | none => []

/-- The text that a chunk brings, where it brings one. -/
def Chunk.currText? (chunk : Chunk) : Option Text :=
  if chunk.size = 0 ∨ chunk.hasFeatures = false then
    none
  else
    match chunk.bestHyp with
    | [] => none
    | hyp :: _ => if hyp.currText idsToText = [] then none else some (hyp.currText idsToText)

structure StreamState where
  prevText : Text
  stepStart : Rat
  emitted : List NeMoWordResult

def StreamState.initial : StreamState := ⟨[], 0, []⟩

/-- One round of the loop over the audio chunks. -/
def streamStep (chunkDur : Rat) (s : StreamState) (chunk : Chunk) : StreamState :=
  let stepStart := if chunk.size = 0 then s.stepStart else s.stepStart + chunkDur
  match chunk.currText? idsToText with
  | none => { s with stepStart := stepStart }
  | some text =>
    { prevText := text
      stepStart := stepStart
      emitted := s.emitted ++ emitNewWords text s.prevText s.stepStart chunkDur }

def runCacheAwareStreaming (chunkDur : Rat) (chunks : List Chunk) : List NeMoWordResult :=
  (chunks.foldl (streamStep idsToText chunkDur) .initial).emitted

/-- The texts of a run's hypotheses, in order. -/
def heardTexts (chunks : List Chunk) : List Text := chunks.filterMap (Chunk.currText? idsToText)

end Loop

/-- White space in front of a text holds no words. -/
theorem splitWords_dropWhile (text : Text) :
    splitWords (text.dropWhile isSpace) = splitWords text := by
  induction text with
  | nil => rfl
  | cons c text ih =>
      cases hc : isSpace c with
      | true => rw [List.dropWhile_cons_of_pos hc, ih, splitWords, splitWords, tokens_cons_sep hc]
      | false => rw [List.dropWhile_cons_of_neg (by simp [hc])]

/-- A step that extends the text emits the words of what it adds. -/
theorem words_emitNewWords (previousText added : Text) (stepStart chunkDur : Rat) :
    (emitNewWords (previousText ++ added) previousText stepStart chunkDur).map (·.word) =
      splitWords added := by
  have hmap : ∀ words : List Text, (words.zipIdx.map fun p : Text × Nat => p.1) = words :=
    fun words => by simp
  rw [emitNewWords]
  split_ifs with h
  · have hadded : added = [] := by
      rcases h with h | h
      · exact (List.append_eq_nil_iff.mp h).2
      · simpa using h
    rw [hadded]
    rfl
  · have hnew : newText (previousText ++ added) previousText = added.dropWhile isSpace := by
      have hextends : previousText.isPrefixOf (previousText ++ added) = true := by simp
      rw [newText, if_pos hextends, List.drop_left]
    simp only [hnew, splitWords_dropWhile, List.map_map]
    exact hmap (splitWords added)

/-- The words emitted over texts that each extend the one before. -/
def addedWords : Text → List Text → List Text
  | _, [] => []
  | previousText, text :: rest =>
    splitWords (text.drop previousText.length) ++ addedWords text rest

section Run

variable {idsToText : List Int → Text}

theorem words_foldl_streamStep (chunkDur : Rat) (chunks : List Chunk) (s : StreamState)
    (h : (s.prevText :: heardTexts idsToText chunks).IsChain (· <+: ·)) :
    (chunks.foldl (streamStep idsToText chunkDur) s).emitted.map (·.word) =
      s.emitted.map (·.word) ++ addedWords s.prevText (heardTexts idsToText chunks) := by
  induction chunks generalizing s with
  | nil => simp [heardTexts, addedWords]
  | cons chunk chunks ih =>
      rw [List.foldl_cons]
      cases htext : chunk.currText? idsToText with
      | none =>
          have hheard : heardTexts idsToText (chunk :: chunks) = heardTexts idsToText chunks := by
            rw [heardTexts, List.filterMap_cons_none htext, heardTexts]
          rw [hheard] at h ⊢
          simp only [streamStep, htext]
          exact ih _ h
      | some text =>
          have hheard : heardTexts idsToText (chunk :: chunks) =
              text :: heardTexts idsToText chunks := by
            rw [heardTexts, List.filterMap_cons_some htext, heardTexts]
          rw [hheard] at h ⊢
          obtain ⟨⟨added, rfl⟩, hrest⟩ := List.isChain_cons_cons.mp h
          simp only [streamStep, htext]
          rw [ih _ hrest, addedWords, List.drop_left, List.map_append, words_emitNewWords,
            List.append_assoc]

theorem words_runCacheAwareStreaming (chunkDur : Rat) {chunks : List Chunk}
    (h : (heardTexts idsToText chunks).IsChain (· <+: ·)) :
    (runCacheAwareStreaming idsToText chunkDur chunks).map (·.word) =
      addedWords [] (heardTexts idsToText chunks) := by
  have hchain : ([] :: heardTexts idsToText chunks).IsChain (· <+: ·) := by
    cases htexts : heardTexts idsToText chunks with
    | nil => exact List.isChain_singleton _
    | cons text rest => exact List.isChain_cons_cons.mpr ⟨List.nil_prefix, htexts ▸ h⟩
  have hrun := words_foldl_streamStep chunkDur chunks .initial hchain
  rw [runCacheAwareStreaming, hrun]
  rfl

end Run

section Boundaries

/-- The text before does not stop inside a word of the next text. -/
def StopsBetweenWords (previousText text : Text) : Prop :=
  ¬ CutsToken isSpace previousText (text.drop previousText.length)

theorem addedWords_of_between {previousText : Text} {texts : List Text}
    (h : (previousText :: texts).IsChain (· <+: ·))
    (hbetween : (previousText :: texts).IsChain StopsBetweenWords) :
    splitWords previousText ++ addedWords previousText texts =
      splitWords (texts.getLastD previousText) := by
  induction texts generalizing previousText with
  | nil => simp [addedWords]
  | cons text rest ih =>
      obtain ⟨⟨added, rfl⟩, hrest⟩ := List.isChain_cons_cons.mp h
      obtain ⟨hstep, hbetween⟩ := List.isChain_cons_cons.mp hbetween
      have hsplit : splitWords (previousText ++ added) =
          splitWords previousText ++ splitWords added := by
        rw [StopsBetweenWords, List.drop_left] at hstep
        exact tokens_append_of_not_cutsToken hstep
      rw [addedWords, List.drop_left, ← List.append_assoc, ← hsplit, ih hrest hbetween,
        List.getLastD_cons]

/-- At least as many words are emitted as the last text has. -/
theorem length_le_addedWords {previousText : Text} {texts : List Text}
    (h : (previousText :: texts).IsChain (· <+: ·)) :
    (splitWords (texts.getLastD previousText)).length ≤
      (splitWords previousText).length + (addedWords previousText texts).length := by
  induction texts generalizing previousText with
  | nil => simp [addedWords]
  | cons text rest ih =>
      obtain ⟨⟨added, rfl⟩, hrest⟩ := List.isChain_cons_cons.mp h
      have hstep : (splitWords (previousText ++ added)).length ≤
          (splitWords previousText).length + (splitWords added).length := by
        by_cases hcut : CutsToken isSpace previousText added
        · have := length_tokens_of_cutsToken hcut
          simp only [splitWords]
          omega
        · rw [splitWords, tokens_append_of_not_cutsToken hcut, List.length_append]
          rfl
      have hrun := ih hrest
      rw [addedWords, List.drop_left, List.length_append, List.getLastD_cons]
      omega

/-- A text that stops inside a word makes it more. -/
theorem length_lt_addedWords {previousText : Text} {texts : List Text}
    (h : (previousText :: texts).IsChain (· <+: ·))
    (hcut : ¬ (previousText :: texts).IsChain StopsBetweenWords) :
    (splitWords (texts.getLastD previousText)).length <
      (splitWords previousText).length + (addedWords previousText texts).length := by
  induction texts generalizing previousText with
  | nil => exact absurd (List.isChain_singleton _) hcut
  | cons text rest ih =>
      obtain ⟨⟨added, rfl⟩, hrest⟩ := List.isChain_cons_cons.mp h
      rw [addedWords, List.drop_left, List.length_append, List.getLastD_cons]
      by_cases hstep : CutsToken isSpace previousText added
      · have hjoined := length_tokens_of_cutsToken hstep
        have hrun := length_le_addedWords hrest
        simp only [splitWords] at hrun ⊢
        omega
      · have hcutRest : ¬ ((previousText ++ added) :: rest).IsChain StopsBetweenWords := by
          intro hbetween
          refine hcut (List.isChain_cons_cons.mpr ⟨?_, hbetween⟩)
          rwa [StopsBetweenWords, List.drop_left]
        have hjoined : (splitWords (previousText ++ added)).length =
            (splitWords previousText).length + (splitWords added).length := by
          rw [splitWords, tokens_append_of_not_cutsToken hstep, List.length_append]
          rfl
        have hrun := ih hrest hcutRest
        omega

end Boundaries

/-- The words emitted over a run are those of the last hypothesis exactly when no hypothesis
stops inside a word of the next. -/
theorem words_run_eq_iff (idsToText : List Int → Text) (chunkDur : Rat) (chunks : List Chunk)
    (h : (heardTexts idsToText chunks).IsChain (· <+: ·)) :
    (runCacheAwareStreaming idsToText chunkDur chunks).map (·.word) =
        splitWords ((heardTexts idsToText chunks).getLastD []) ↔
      (heardTexts idsToText chunks).IsChain StopsBetweenWords := by
  rw [words_runCacheAwareStreaming chunkDur h]
  have hfree : ∀ text : Text, StopsBetweenWords [] text := fun text hcut => by simpa using hcut.1
  have hchain : ∀ {R : Text → Text → Prop}, (∀ text, R [] text) →
      (([] :: heardTexts idsToText chunks).IsChain R ↔
        (heardTexts idsToText chunks).IsChain R) := by
    intro R hR
    cases heardTexts idsToText chunks with
    | nil => simp
    | cons text rest => simp [hR]
  have hextends := (hchain fun _ => List.nil_prefix).mpr h
  constructor
  · intro heq
    by_contra hcut
    have hlt := length_lt_addedWords hextends ((hchain hfree).not.mpr hcut)
    rw [← heq] at hlt
    simp [splitWords] at hlt
  · intro hbetween
    exact addedWords_of_between hextends ((hchain hfree).mpr hbetween)

/-- A chunk whose hypothesis has the given text. -/
def heard (text : String) : Chunk := ⟨1600, true, [⟨some text.toList, none⟩]⟩

/-- Hypotheses that stop after words. -/
theorem words_run_between :
    [heard "hello ", heard "hello world"].map (Chunk.currText? fun _ => []) =
        [some "hello ".toList, some "hello world".toList] ∧
      ((runCacheAwareStreaming (fun _ => []) (1 / 10) [heard "hello ", heard "hello world"]).map
          (·.word) = splitWords "hello world".toList ↔
        ["hello ".toList, "hello world".toList].IsChain StopsBetweenWords) :=
  ⟨by decide, words_run_eq_iff (fun _ => []) (1 / 10) [heard "hello ", heard "hello world"]
    (by decide)⟩

/-- A hypothesis that stops inside a word: its two parts are emitted as words. -/
theorem hello_in_two :
    heardTexts (fun _ => []) [heard "hel", heard "hello"] = ["hel".toList, "hello".toList] ∧
      "hel".toList <+: "hello".toList ∧
      (runCacheAwareStreaming (fun _ => []) (1 / 10) [heard "hel", heard "hello"]).map (·.word) =
        ["hel".toList, "lo".toList] ∧
      splitWords "hello".toList = ["hello".toList] := by
  decide +kernel

end Dalston.Engines.StreamingWords
