import Dalston.Foundation.Results
import Dalston.Foundation.Spans
import Dalston.Model.Rounding
import Dalston.Model.TextWrap

/-!
# Words from the tokens of an ONNX recogniser

A recogniser returns tokens with time stamps, for the whole audio or for each region of speech.
Tokens up to the next boundary mark make a word, and words up to the end of a sentence make a
segment; on the way over the regions the words of a region make its segment.

## Implementation notes

An attribute of a result is absent where the recogniser leaves it out or empty.
-/

namespace Dalston.Engines.TokenGrouping

open Foundation Model Model.TextWrap

structure OnnxWordResult where
  word : Text
  start : Rat
  stop : Rat
  confidence : Option Rat := none

structure OnnxSegmentResult where
  start : Rat
  stop : Rat
  text : Text
  words : List OnnxWordResult := []

structure OnnxTranscriptionResult where
  text : Text := []
  segments : List OnnxSegmentResult := []
  language : String := "en"
  languageProbability : Rat := 1

/-- What ends the parsing of a result. -/
inductive TokenError
  | indexError

section Grouping

/-- The mark of SentencePiece at the start of a word. -/
def mark : Char := '\u2581'

def isWordBoundary (tokenText : Text) : Bool :=
  tokenText.head?.any fun c => c = mark || c = ' '

/-- The text without the marks. -/
def unmarked (text : Text) : Text := text.filter (· ≠ mark)

def wordText (parts : List Text) : Text := strip (unmarked parts.flatten)

/-- The words so far and the one that is being put together. -/
structure GroupState where
  words : List OnnxWordResult := []
  parts : List Text := []
  start : Option Rat := none
  stop : Rat := 0

/-- The words with the pending one, unless it is blank. -/
def GroupState.closed (s : GroupState) : List OnnxWordResult :=
  match s.start with
  | none => s.words
  | some start =>
    if wordText s.parts = [] then s.words
    else s.words ++ [{ word := wordText s.parts, start := roundMs start, stop := roundMs s.stop }]

def GroupState.add (s : GroupState) (token : Text) (tokenStart tokenStop : Rat) : GroupState :=
  if isWordBoundary token = true ∧ s.parts ≠ [] then
    { words := s.closed, parts := [token], start := some tokenStart, stop := tokenStop }
  else
    { words := s.words
      parts := s.parts ++ [token]
      start := s.start.or (some tokenStart)
      stop := tokenStop }

/-- The tokens from a position on; a token ends where the next one starts. -/
def groupFrom (timestamps : List Rat) :
    List Text → Nat → GroupState → Except TokenError GroupState
  | [], _, s => .ok s
  | token :: rest, i, s =>
    match timestamps[i]? with
    | none => .error .indexError
    | some tokenStart =>
      groupFrom timestamps rest (i + 1)
        (s.add token tokenStart (timestamps[i + 1]?.getD tokenStart))

def tokensToWords (tokens : List Text) (timestamps : List Rat) :
    Except TokenError (List OnnxWordResult) :=
  if tokens = [] ∨ timestamps = [] then .ok []
  else (groupFrom timestamps tokens 0 {}).map (·.closed)

end Grouping

section Plain

structure ResultWord where
  text : Text
  start : Rat
  stop : Rat

/-- The result for a whole audio. -/
structure RecognitionResult where
  text : Text
  words : List ResultWord := []
  tokens : List Text := []
  timestamps : List Rat := []

def sentenceEnds : Text := ['.', '?', '!', '。', '？', '！']

def isSentenceEnding (word : Text) : Bool :=
  (word.reverse.dropWhile isSpace).head?.any (· ∈ sentenceEnds)

def joinWords (words : List OnnxWordResult) : Text :=
  joinWith ' ' (words.map (·.word))

/-- The segment of some words. -/
def sentenceOf (first : OnnxWordResult) (rest : List OnnxWordResult) : OnnxSegmentResult where
  start := first.start
  stop := (rest.getLastD first).stop
  text := joinWords (first :: rest)
  words := first :: rest

/-- A segment, if there are words for it. -/
def sentences : List OnnxWordResult → List OnnxSegmentResult
  | [] => []
  | first :: rest => [sentenceOf first rest]

/-- The segments of the words, after the words that wait for the end of their sentence. -/
def segmentsFrom (current : List OnnxWordResult) :
    List OnnxWordResult → List OnnxSegmentResult
  | [] => sentences current
  | word :: rest =>
    if isSentenceEnding word.word then
      sentences (current ++ [word]) ++ segmentsFrom [] rest
    else segmentsFrom (current ++ [word]) rest

def wordsToSegments (allWords : List OnnxWordResult) (fullText : Text) :
    List OnnxSegmentResult :=
  if allWords = [] then
    if fullText = [] then [] else [{ start := 0, stop := 0, text := fullText }]
  else segmentsFrom [] allWords

/-- The words that the result brings or those of its tokens, if each has a time stamp. -/
def resultWords (result : RecognitionResult) : Except TokenError (List OnnxWordResult) :=
  if result.words ≠ [] then
    .ok (result.words.filterMap fun w =>
      if strip w.text = [] then none
      else some { word := strip w.text, start := roundMs w.start, stop := roundMs w.stop })
  else if result.tokens.length = result.timestamps.length then
    tokensToWords result.tokens result.timestamps
  else .ok []

def parseResult (result : RecognitionResult) : Except TokenError OnnxTranscriptionResult :=
  let text := strip result.text
  if text = [] then .ok {}
  else (resultWords result).map fun allWords =>
    { text := text, segments := wordsToSegments allWords text }

end Plain

section Regions

/-- The result for a region of speech, with time stamps from its start. -/
structure VadSegment where
  start : Rat
  stop : Rat
  text : Text
  tokens : List Text := []
  timestamps : List Rat := []

/-- A word placed in the audio. -/
def placeWord (segStart : Rat) (w : OnnxWordResult) : OnnxWordResult where
  word := w.word
  start := roundMs (w.start + segStart)
  stop := roundMs (w.stop + segStart)
  confidence := w.confidence

/-- The segment of a region, which covers its words and ends with the last of them. -/
def regionSegment (seg : VadSegment) (words : List OnnxWordResult) : OnnxSegmentResult :=
  let bounds : Rat × Rat :=
    match (words.map (·.start)).min?, (words.map (·.stop)).max? with
    | some first, some last => (min seg.start first, max last (min seg.start first))
    | _, _ => (seg.start, seg.stop)
  { start := roundMs bounds.1, stop := roundMs bounds.2, text := strip seg.text, words := words }

def parseRegion (seg : VadSegment) : Except TokenError OnnxSegmentResult :=
  (tokensToWords seg.tokens seg.timestamps).map fun rawWords =>
    regionSegment seg (rawWords.map (placeWord seg.start))

def parseVadResult (vadSegments : List VadSegment) : Except TokenError OnnxTranscriptionResult :=
  ((vadSegments.filter fun seg => strip seg.text ≠ []).mapM parseRegion).map fun allSegments =>
    { text := joinWith ' ' (allSegments.map (·.text)), segments := allSegments }

end Regions

section Words

/-- Words in order, none of which ends before it starts. -/
structure WordsInOrder (words : List OnnxWordResult) : Prop where
  proper : ∀ w ∈ words, w.start ≤ w.stop
  ordered : words.Pairwise fun v w => v.start ≤ w.start ∧ v.stop ≤ w.stop

/-- The times of a word are rounded time stamps. -/
def Stamped (timestamps : List Rat) (w : OnnxWordResult) : Prop :=
  (∃ t ∈ timestamps, w.start = roundMs t) ∧ ∃ t ∈ timestamps, w.stop = roundMs t

/-- The characters of some words that are not white space. -/
def inkOf (words : List OnnxWordResult) : Text := ink (words.flatMap (·.word))

@[simp] theorem unmarked_append (s t : Text) : unmarked (s ++ t) = unmarked s ++ unmarked t :=
  List.filter_append s t

theorem WordsInOrder.snoc {words : List OnnxWordResult} (h : WordsInOrder words)
    {w : OnnxWordResult} (hw : w.start ≤ w.stop) (hbefore : ∀ v ∈ words, v.stop ≤ w.start) :
    WordsInOrder (words ++ [w]) := by
  refine ⟨fun v hv => ?_, List.pairwise_append.mpr ⟨h.ordered, List.pairwise_singleton _ _, ?_⟩⟩
  · rcases List.mem_append.mp hv with hv | hv
    · exact h.proper v hv
    · exact List.mem_singleton.mp hv ▸ hw
  · intro v hv w' hw'
    obtain rfl := List.mem_singleton.mp hw'
    exact ⟨(h.proper v hv).trans (hbefore v hv), (hbefore v hv).trans hw⟩

end Words

section Invariant

variable {timestamps : List Rat} {done : List Text} {i : Nat} {s : GroupState}

/-- The words and the pending one have the characters of the tokens so far, and their times are
in order and come before the next time stamp. -/
structure Grouped (timestamps : List Rat) (done : List Text) (i : Nat) (s : GroupState) :
    Prop where
  kept : inkOf s.words ++ ink (unmarked s.parts.flatten) = ink (unmarked done.flatten)
  fresh : s.start = none → s.words = [] ∧ s.parts = []
  pending : ∀ start ∈ s.start, start ≤ s.stop ∧ start ∈ timestamps ∧ s.stop ∈ timestamps ∧
    (∀ w ∈ s.words, w.stop ≤ roundMs start) ∧ ∀ t ∈ timestamps[i]?, s.stop ≤ t
  inOrder : WordsInOrder s.words
  stamped : ∀ w ∈ s.words, Stamped timestamps w

theorem grouped_start : Grouped timestamps [] 0 {} where
  kept := rfl
  fresh := fun _ => ⟨rfl, rfl⟩
  pending := by simp
  inOrder := ⟨by simp, List.Pairwise.nil⟩
  stamped := by simp

/-- With the pending word nothing is missing. -/
theorem Grouped.closed (h : Grouped timestamps done i s) :
    inkOf s.closed = ink (unmarked done.flatten) ∧ WordsInOrder s.closed ∧
      (∀ w ∈ s.closed, Stamped timestamps w) ∧
      ∀ start ∈ s.start, ∀ w ∈ s.closed, w.stop ≤ roundMs s.stop := by
  cases hstart : s.start with
  | none =>
      obtain ⟨hwords, hparts⟩ := h.fresh hstart
      have hkept := h.kept
      rw [hwords, hparts] at hkept
      have hclosed : s.closed = [] := by rw [GroupState.closed, hstart, hwords]
      rw [hclosed]
      exact ⟨hkept, ⟨by simp, List.Pairwise.nil⟩, by simp, by simp⟩
  | some start =>
      obtain ⟨hlen, hmem, hmem', hbefore, -⟩ := h.pending start hstart
      have hround : roundMs start ≤ roundMs s.stop := roundMs_mono hlen
      by_cases hblank : wordText s.parts = []
      · have hnone : ink (unmarked s.parts.flatten) = [] :=
          ink_eq_nil_iff.mpr (strip_eq_nil_iff.mp hblank)
        have hkept := h.kept
        rw [hnone, List.append_nil] at hkept
        have hclosed : s.closed = s.words := by
          simp only [GroupState.closed, hstart, hblank, if_true]
        rw [hclosed]
        exact ⟨hkept, h.inOrder, h.stamped, fun _ _ w hw => (hbefore w hw).trans hround⟩
      · have hclosed : s.closed = s.words ++ [{
            word := wordText s.parts, start := roundMs start, stop := roundMs s.stop }] := by
          simp only [GroupState.closed, hstart, hblank, if_false]
        rw [hclosed]
        refine ⟨?_, h.inOrder.snoc hround hbefore, fun w hw => ?_, fun _ _ w hw => ?_⟩
        · rw [← h.kept]
          simp [inkOf, wordText]
        · rcases List.mem_append.mp hw with hw | hw
          · exact h.stamped w hw
          · obtain rfl := List.mem_singleton.mp hw
            exact ⟨⟨start, hmem, rfl⟩, s.stop, hmem', rfl⟩
        · rcases List.mem_append.mp hw with hw | hw
          · exact (hbefore w hw).trans hround
          · exact (congrArg OnnxWordResult.stop (List.mem_singleton.mp hw)).le

/-- A token ends no earlier than it starts, at a time stamp. -/
theorem tokenStop_spec (hsorted : timestamps.Pairwise (· ≤ ·)) {tokenStart : Rat}
    (hget : timestamps[i]? = some tokenStart) :
    tokenStart ≤ timestamps[i + 1]?.getD tokenStart ∧
      timestamps[i + 1]?.getD tokenStart ∈ timestamps ∧
      ∀ t ∈ timestamps[i + 1]?, timestamps[i + 1]?.getD tokenStart ≤ t := by
  obtain ⟨hi, rfl⟩ := List.getElem?_eq_some_iff.mp hget
  cases hnext : timestamps[i + 1]? with
  | none => exact ⟨le_rfl, List.getElem_mem hi, by simp⟩
  | some next =>
      obtain ⟨hi', rfl⟩ := List.getElem?_eq_some_iff.mp hnext
      exact ⟨List.pairwise_iff_getElem.mp hsorted _ _ hi hi' (Nat.lt_succ_self i),
        List.getElem_mem hi', by simp⟩

/-- One token more. -/
theorem Grouped.add (h : Grouped timestamps done i s) (hsorted : timestamps.Pairwise (· ≤ ·))
    {tokenStart : Rat} (hget : timestamps[i]? = some tokenStart) (token : Text) :
    Grouped timestamps (done ++ [token]) (i + 1)
      (s.add token tokenStart (timestamps[i + 1]?.getD tokenStart)) := by
  obtain ⟨hle, hmem', hnext⟩ := tokenStop_spec hsorted hget
  have hmem := List.mem_of_getElem? hget
  by_cases hboundary : isWordBoundary token = true ∧ s.parts ≠ []
  · obtain ⟨hkept, hinOrder, hstamped, hbefore⟩ := h.closed
    obtain ⟨start, hstart⟩ : ∃ start, s.start = some start :=
      Option.ne_none_iff_exists'.mp fun hnone => hboundary.2 (h.fresh hnone).2
    obtain ⟨-, -, -, -, hlast⟩ := h.pending start hstart
    rw [GroupState.add, if_pos hboundary]
    refine ⟨?_, by simp, ?_, hinOrder, hstamped⟩
    · simp [hkept]
    · rintro _ ⟨⟩
      exact ⟨hle, hmem, hmem', fun w hw =>
        (hbefore start hstart w hw).trans (roundMs_mono (hlast _ hget)), hnext⟩
  · rw [GroupState.add, if_neg hboundary]
    refine ⟨?_, by simp, fun start hstart => ?_, h.inOrder, h.stamped⟩
    · have hkept := h.kept
      simp only [List.flatten_append, unmarked_append, ink_append] at hkept ⊢
      rw [← hkept, List.append_assoc]
    · cases hold : s.start with
      | none =>
          simp only [hold, Option.none_or, Option.mem_def, Option.some.injEq] at hstart
          subst hstart
          exact ⟨hle, hmem, hmem', by simp [(h.fresh hold).1], hnext⟩
      | some first =>
          simp only [hold, Option.some_or, Option.mem_def, Option.some.injEq] at hstart
          subst hstart
          obtain ⟨hlen, hfirst, -, hbefore, hlast⟩ := h.pending first hold
          exact ⟨hlen.trans ((hlast _ hget).trans hle), hfirst, hmem', hbefore, hnext⟩

/-- Every token that has a time stamp is grouped. -/
theorem groupFrom_grouped (hsorted : timestamps.Pairwise (· ≤ ·)) {tokens : List Text}
    (hlen : i + tokens.length ≤ timestamps.length) (h : Grouped timestamps done i s) :
    ∃ s', groupFrom timestamps tokens i s = .ok s' ∧
      Grouped timestamps (done ++ tokens) (i + tokens.length) s' := by
  induction tokens generalizing done i s with
  | nil => exact ⟨s, rfl, by simpa using h⟩
  | cons token rest ih =>
      rw [List.length_cons] at hlen
      have hi : i < timestamps.length := by omega
      have hget := List.getElem?_eq_getElem hi
      obtain ⟨s', hs', hgrouped⟩ := ih (by omega) (h.add hsorted hget token)
      refine ⟨s', by rw [groupFrom, hget]; exact hs', ?_⟩
      have hindex : i + (token :: rest).length = i + 1 + rest.length := by
        rw [List.length_cons]
        omega
      rw [hindex]
      simpa using hgrouped

/-- The words of tokens that all have a time stamp. -/
theorem tokensToWords_words {tokens : List Text} (hsorted : timestamps.Pairwise (· ≤ ·))
    (hlen : tokens.length ≤ timestamps.length) :
    ∃ words, tokensToWords tokens timestamps = .ok words ∧
      inkOf words = ink (unmarked tokens.flatten) ∧ WordsInOrder words ∧
      ∀ w ∈ words, Stamped timestamps w := by
  by_cases hempty : tokens = [] ∨ timestamps = []
  · have htokens : tokens = [] := by
      rcases hempty with htokens | rfl
      · exact htokens
      · exact List.eq_nil_of_length_eq_zero (Nat.le_zero.mp hlen)
    subst htokens
    exact ⟨[], by rw [tokensToWords, if_pos hempty], rfl, ⟨by simp, List.Pairwise.nil⟩, by simp⟩
  · obtain ⟨s, hs, hgrouped⟩ := groupFrom_grouped hsorted
      (by simpa using hlen : 0 + tokens.length ≤ timestamps.length) grouped_start
    obtain ⟨hkept, hinOrder, hstamped, -⟩ := hgrouped.closed
    refine ⟨s.closed, by rw [tokensToWords, if_neg hempty, hs]; rfl, ?_, hinOrder, hstamped⟩
    simpa using hkept

end Invariant

section Sentences

variable {words : List OnnxWordResult}

/-- The segment's ends enclose the times of its words. -/
def Encloses (seg : OnnxSegmentResult) : Prop :=
  ∀ w ∈ seg.words, seg.start ≤ w.start ∧ w.stop ≤ seg.stop

theorem words_sentences (words : List OnnxWordResult) :
    (sentences words).flatMap (·.words) = words := by
  cases words with
  | nil => rfl
  | cons first rest => exact List.append_nil _

/-- The segments have the words in order, each once. -/
theorem words_segmentsFrom (current words : List OnnxWordResult) :
    (segmentsFrom current words).flatMap (·.words) = current ++ words := by
  induction words generalizing current with
  | nil => rw [segmentsFrom, words_sentences, List.append_nil]
  | cons word rest ih =>
      rw [segmentsFrom]
      split
      · rw [List.flatMap_append, words_sentences, ih, List.nil_append, List.append_assoc]
        rfl
      · rw [ih, List.append_assoc]
        rfl

theorem exists_sentenceOf {current : List OnnxWordResult} {seg : OnnxSegmentResult}
    (h : seg ∈ segmentsFrom current words) : ∃ first rest, seg = sentenceOf first rest := by
  have hone : ∀ ws, seg ∈ sentences ws → ∃ first rest, seg = sentenceOf first rest := by
    intro ws hws
    cases ws with
    | nil => cases hws
    | cons first rest => exact ⟨first, rest, List.mem_singleton.mp hws⟩
  induction words generalizing current with
  | nil => exact hone current h
  | cons word rest ih =>
      rw [segmentsFrom] at h
      split at h
      · rcases List.mem_append.mp h with h | h
        · exact hone _ h
        · exact ih h
      · exact ih h

theorem stop_le_getLastD {first : OnnxWordResult} {rest : List OnnxWordResult}
    (h : (first :: rest).Pairwise fun v w => v.start ≤ w.start ∧ v.stop ≤ w.stop)
    {w : OnnxWordResult} (hw : w ∈ first :: rest) : w.stop ≤ (rest.getLastD first).stop := by
  induction rest generalizing first w with
  | nil => exact (congrArg OnnxWordResult.stop (List.mem_singleton.mp hw)).le
  | cons next rest ih =>
      obtain ⟨hfirst, hrest⟩ := List.pairwise_cons.mp h
      rw [List.getLastD_cons]
      rcases List.mem_cons.mp hw with rfl | hw
      · exact (hfirst next List.mem_cons_self).2.trans (ih hrest List.mem_cons_self)
      · exact ih hrest hw

/-- Words in order are enclosed by their segment. -/
theorem sentenceOf_encloses {first : OnnxWordResult} {rest : List OnnxWordResult}
    (h : (first :: rest).Pairwise fun v w => v.start ≤ w.start ∧ v.stop ≤ w.stop) :
    Encloses (sentenceOf first rest) := by
  intro w hw
  refine ⟨?_, stop_le_getLastD h hw⟩
  rcases List.mem_cons.mp hw with rfl | hw
  · exact le_rfl
  · exact ((List.pairwise_cons.mp h).1 w hw).1

theorem wordsToSegments_words (words : List OnnxWordResult) (fullText : Text) :
    (wordsToSegments words fullText).flatMap (·.words) = words := by
  by_cases hnil : words = []
  · subst hnil
    by_cases htext : fullText = [] <;> simp [wordsToSegments, htext]
  · rw [wordsToSegments, if_neg hnil, words_segmentsFrom, List.nil_append]

theorem wordsToSegments_encloses (h : WordsInOrder words) {fullText : Text}
    {seg : OnnxSegmentResult} (hseg : seg ∈ wordsToSegments words fullText) : Encloses seg := by
  by_cases hnil : words = []
  · have hnone : seg.words = [] := by
      have hall := wordsToSegments_words words fullText
      rw [hnil, List.flatMap_eq_nil_iff] at hall
      exact hall seg (hnil ▸ hseg)
    intro w hw
    rw [hnone] at hw
    cases hw
  · rw [wordsToSegments, if_neg hnil] at hseg
    have hpairs := h.ordered
    rw [← List.nil_append words, ← words_segmentsFrom, List.pairwise_flatMap] at hpairs
    have hown := hpairs.1 seg hseg
    obtain ⟨first, rest, rfl⟩ := exists_sentenceOf hseg
    exact sentenceOf_encloses hown

end Sentences

section Placement

variable {seg : VadSegment} {words : List OnnxWordResult}

theorem inkOf_placed (segStart : Rat) (words : List OnnxWordResult) :
    inkOf (words.map (placeWord segStart)) = inkOf words := by
  rw [inkOf, inkOf, List.flatMap_map]
  rfl

/-- Placing words in the audio keeps their order. -/
theorem WordsInOrder.placed (h : WordsInOrder words) (segStart : Rat) :
    WordsInOrder (words.map (placeWord segStart)) := by
  have hmono : ∀ {x y : Rat}, x ≤ y → roundMs (x + segStart) ≤ roundMs (y + segStart) :=
    fun hle => roundMs_mono (by linarith)
  refine ⟨fun w hw => ?_, List.pairwise_map.mpr (h.ordered.imp fun hle => ?_)⟩
  · obtain ⟨v, hv, rfl⟩ := List.mem_map.mp hw
    exact hmono (h.proper v hv)
  · exact ⟨hmono hle.1, hmono hle.2⟩

/-- A region's segment encloses words that are placed. -/
theorem regionSegment_encloses (words : List OnnxWordResult) :
    Encloses (regionSegment seg (words.map (placeWord seg.start))) := by
  intro w hw
  obtain ⟨first, hfirst, hlow⟩ := exists_min?_le (List.mem_map_of_mem (f := (·.start)) hw)
  obtain ⟨last, hlast, hhigh⟩ := exists_le_max? (List.mem_map_of_mem (f := (·.stop)) hw)
  obtain ⟨v, -, rfl⟩ := List.mem_map.mp hw
  have hstart : roundMs (placeWord seg.start v).start = (placeWord seg.start v).start :=
    roundMs_roundMs _
  have hstop : roundMs (placeWord seg.start v).stop = (placeWord seg.start v).stop :=
    roundMs_roundMs _
  rw [← hstart, ← hstop]
  simp only [regionSegment] at hfirst hlast ⊢
  rw [hfirst, hlast]
  exact ⟨roundMs_mono ((min_le_right _ _).trans hlow), roundMs_mono (hhigh.trans (le_max_left _ _))⟩

/-- The time of a word that starts or ends at a time stamp of the region. -/
def placedTime (seg : VadSegment) (t : Rat) : Rat := roundMs (roundMs t + seg.start)

/-- The time stamps of a region never fall, and there is one for each token. -/
structure RegionReady (seg : VadSegment) : Prop where
  sorted : seg.timestamps.Pairwise (· ≤ ·)
  enough : seg.tokens.length ≤ seg.timestamps.length

/-- The segment of a region has its text and its words, in order and enclosed, with the
characters of the tokens and times at the time stamps. -/
structure RegionKept (seg : VadSegment) (out : OnnxSegmentResult) : Prop where
  text : out.text = strip seg.text
  words : ∃ raw, tokensToWords seg.tokens seg.timestamps = .ok raw ∧
    out.words = raw.map (placeWord seg.start)
  kept : inkOf out.words = ink (unmarked seg.tokens.flatten)
  inOrder : WordsInOrder out.words
  encloses : Encloses out
  placed : ∀ w ∈ out.words, (∃ t ∈ seg.timestamps, w.start = placedTime seg t) ∧
    ∃ t ∈ seg.timestamps, w.stop = placedTime seg t

theorem RegionReady.parseRegion (h : RegionReady seg) :
    ∃ out, parseRegion seg = .ok out ∧ RegionKept seg out := by
  obtain ⟨raw, hraw, hkept, hinOrder, hstamped⟩ := tokensToWords_words h.sorted h.enough
  have hparse : TokenGrouping.parseRegion seg =
      .ok (regionSegment seg (raw.map (placeWord seg.start))) := by
    rw [TokenGrouping.parseRegion, hraw]
    rfl
  refine ⟨_, hparse, rfl, ⟨raw, hraw, rfl⟩, (inkOf_placed _ _).trans hkept, hinOrder.placed _,
    regionSegment_encloses raw, fun w hw => ?_⟩
  obtain ⟨v, hv, rfl⟩ := List.mem_map.mp hw
  obtain ⟨⟨t, ht, hstart⟩, u, hu, hstop⟩ := hstamped v hv
  exact ⟨⟨t, ht, by rw [placedTime, ← hstart]; rfl⟩, u, hu, by rw [placedTime, ← hstop]; rfl⟩

/-- The regions whose text is not blank. -/
def spoken (regions : List VadSegment) : List VadSegment :=
  regions.filter fun seg => strip seg.text ≠ []

/-- All placed time stamps of a region come before those of the later ones. -/
def Ascending (regions : List VadSegment) : Prop :=
  regions.Pairwise fun seg seg' => ∀ t ∈ seg.timestamps, ∀ t' ∈ seg'.timestamps,
    placedTime seg t ≤ placedTime seg' t'

/-- Regions with time stamps for all tokens have a segment each. -/
theorem parseVadResult_words {regions : List VadSegment}
    (h : ∀ seg ∈ spoken regions, RegionReady seg) :
    ∃ parsed, parseVadResult regions = .ok parsed ∧
      List.Forall₂ RegionKept (spoken regions) parsed.segments ∧
      (Ascending (spoken regions) → WordsInOrder (parsed.segments.flatMap (·.words))) := by
  obtain ⟨segments, hsegments, hkept⟩ :=
    exists_mapM_iff.mpr fun seg hseg => (h seg hseg).parseRegion
  have hparse : parseVadResult regions = .ok {
      text := joinWith ' ' (segments.map (·.text)), segments := segments } := by
    rw [parseVadResult, show regions.filter (fun seg => strip seg.text ≠ []) = spoken regions from
      rfl, hsegments]
    rfl
  refine ⟨_, hparse, hkept, fun hascending => ⟨fun w hw => ?_, ?_⟩⟩
  · obtain ⟨out, hout, hw⟩ := List.mem_flatMap.mp hw
    obtain ⟨seg, -, hseg⟩ := exists_of_mem_forall₂ hkept hout
    exact hseg.inOrder.proper w hw
  · refine List.pairwise_flatMap.mpr ⟨fun out hout => ?_, ?_⟩
    · obtain ⟨seg, -, hseg⟩ := exists_of_mem_forall₂ hkept hout
      exact hseg.inOrder.ordered
    · refine pairwise_of_forall₂ hkept hascending fun seg out seg' out' hseg hseg' hle => ?_
      intro w hw w' hw'
      obtain ⟨⟨t, ht, hstart⟩, u, hu, hstop⟩ := hseg.placed w hw
      obtain ⟨⟨t', ht', hstart'⟩, u', hu', hstop'⟩ := hseg'.placed w' hw'
      rw [hstart, hstart', hstop, hstop']
      exact ⟨hle t ht t' ht', hle u hu u' hu'⟩

end Placement

section Paths

/-- A result with text and, instead of words, tokens with one time stamp each that never fall. -/
structure PlainReady (result : RecognitionResult) : Prop where
  text : strip result.text ≠ []
  tokenLevel : result.words = []
  sorted : result.timestamps.Pairwise (· ≤ ·)
  paired : result.tokens.length = result.timestamps.length

theorem groupFrom_ok {timestamps : List Rat} {tokens : List Text} {i : Nat}
    (hlen : i + tokens.length ≤ timestamps.length) (s : GroupState) :
    ∃ s', groupFrom timestamps tokens i s = .ok s' := by
  induction tokens generalizing i s with
  | nil => exact ⟨s, rfl⟩
  | cons token rest ih =>
      rw [List.length_cons] at hlen
      have hi : i < timestamps.length := by omega
      rw [groupFrom, List.getElem?_eq_getElem hi]
      exact ih (by omega) _

/-- The plain path never raises, since it groups tokens only if each has a time stamp. -/
theorem parseResult_ok (result : RecognitionResult) :
    ∃ parsed, parseResult result = .ok parsed := by
  have hwords : ∃ words, resultWords result = .ok words := by
    rw [resultWords]
    split
    · exact ⟨_, rfl⟩
    · split
      · next hlen =>
          rw [tokensToWords]
          split
          · exact ⟨_, rfl⟩
          · have henough : 0 + result.tokens.length ≤ result.timestamps.length := by omega
            obtain ⟨s, hs⟩ := groupFrom_ok henough {}
            exact ⟨s.closed, by rw [hs]; rfl⟩
      · exact ⟨_, rfl⟩
  obtain ⟨words, hwords⟩ := hwords
  rw [parseResult, hwords]
  split
  · exact ⟨_, rfl⟩
  · exact ⟨_, rfl⟩

theorem PlainReady.parseResult {result : RecognitionResult} (h : PlainReady result) :
    ∃ parsed, parseResult result = .ok parsed ∧
      tokensToWords result.tokens result.timestamps = .ok (parsed.segments.flatMap (·.words)) ∧
      inkOf (parsed.segments.flatMap (·.words)) = ink (unmarked result.tokens.flatten) ∧
      WordsInOrder (parsed.segments.flatMap (·.words)) ∧
      ∀ seg ∈ parsed.segments, Encloses seg := by
  obtain ⟨words, hwords, hkept, hinOrder, -⟩ := tokensToWords_words h.sorted h.paired.le
  have hresult : resultWords result = .ok words := by
    rw [resultWords, if_neg (not_not.mpr h.tokenLevel), if_pos h.paired, hwords]
  have hparse : TokenGrouping.parseResult result = .ok {
      text := strip result.text
      segments := wordsToSegments words (strip result.text) } := by
    rw [TokenGrouping.parseResult, hresult]
    exact if_neg h.text
  refine ⟨_, hparse, ?_⟩
  rw [wordsToSegments_words]
  exact ⟨hwords, hkept, hinOrder, fun seg hseg => wordsToSegments_encloses hinOrder hseg⟩

/-- Where the tokens have their time stamps the words of both paths have the characters of the
tokens, in order, and are divided among segments that enclose them. -/
theorem words_conserved {result : RecognitionResult} {regions : List VadSegment}
    (hplain : PlainReady result) (hregions : ∀ seg ∈ spoken regions, RegionReady seg) :
    (∃ parsed, parseResult result = .ok parsed ∧
      tokensToWords result.tokens result.timestamps = .ok (parsed.segments.flatMap (·.words)) ∧
      inkOf (parsed.segments.flatMap (·.words)) = ink (unmarked result.tokens.flatten) ∧
      WordsInOrder (parsed.segments.flatMap (·.words)) ∧
      ∀ seg ∈ parsed.segments, Encloses seg) ∧
    (∃ parsed, parseVadResult regions = .ok parsed ∧
      List.Forall₂ RegionKept (spoken regions) parsed.segments ∧
      (Ascending (spoken regions) → WordsInOrder (parsed.segments.flatMap (·.words)))) ∧
    ∀ other, ∃ parsed, parseResult other = .ok parsed :=
  ⟨hplain.parseResult, parseVadResult_words hregions, parseResult_ok⟩

/-- Two sentences, the second in two tokens. -/
def twoSentences : RecognitionResult where
  text := "a. bc".toList
  tokens := [[mark, 'a', '.'], [mark, 'b'], ['c']]
  timestamps := [0, 1, 2]

def twoRegions : List VadSegment :=
  [{ start := 0, stop := 1, text := ['a'], tokens := [[mark, 'a']], timestamps := [0] },
    { start := 2, stop := 3, text := ['b'], tokens := [[mark, 'b']], timestamps := [0] }]

theorem both_paths : (∃ parsed, parseResult twoSentences = .ok parsed ∧
      inkOf (parsed.segments.flatMap (·.words)) = ink (unmarked twoSentences.tokens.flatten)) ∧
    ∃ parsed, parseVadResult twoRegions = .ok parsed ∧
      WordsInOrder (parsed.segments.flatMap (·.words)) := by
  have hplain : PlainReady twoSentences :=
    ⟨by decide, rfl, by decide +kernel, rfl⟩
  have hregions : ∀ seg ∈ spoken twoRegions, RegionReady seg := by
    intro seg hseg
    have hmem : seg ∈ twoRegions := List.mem_of_mem_filter hseg
    simp only [twoRegions, List.mem_cons, List.not_mem_nil, or_false] at hmem
    rcases hmem with rfl | rfl
    · exact ⟨List.pairwise_singleton _ _, le_rfl⟩
    · exact ⟨List.pairwise_singleton _ _, le_rfl⟩
  obtain ⟨⟨parsed, hparsed, -, hkept, -⟩, ⟨parsed', hparsed', -, hinOrder⟩, -⟩ :=
    words_conserved hplain hregions
  have hascending : Ascending (spoken twoRegions) := by
    have hspoken : spoken twoRegions = twoRegions := rfl
    rw [hspoken]
    refine List.pairwise_pair.mpr fun t ht t' ht' => ?_
    obtain rfl := List.mem_singleton.mp ht
    obtain rfl := List.mem_singleton.mp ht'
    decide +kernel
  exact ⟨⟨parsed, hparsed, hkept⟩, parsed', hparsed', hinOrder hascending⟩

/-- Two tokens with a single time stamp. -/
def unpaired : RecognitionResult where
  text := "a b".toList
  tokens := [[mark, 'a'], [mark, 'b']]
  timestamps := [0]

/-- A region with a time stamp past the start of the next one. -/
def lateRegions : List VadSegment :=
  [{ start := 0, stop := 1, text := ['a'], tokens := [[mark, 'a']], timestamps := [5] },
    { start := 2, stop := 3, text := ['b'], tokens := [[mark, 'b']], timestamps := [0] }]

/-- The plain path keeps only the text of tokens without a time stamp each, and late time
stamps bring the words of the regions out of order. -/
theorem unpaired_or_late :
    (∃ parsed, parseResult unpaired = .ok parsed ∧ parsed.segments.flatMap (·.words) = [] ∧
      ink (unmarked unpaired.tokens.flatten) = ['a', 'b']) ∧
    ∃ parsed, parseVadResult lateRegions = .ok parsed ∧
      (parsed.segments.flatMap (·.words)).map (·.start) = [5, 2] := by
  refine ⟨⟨_, rfl, rfl, rfl⟩, _, rfl, ?_⟩
  decide +kernel

end Paths

end Dalston.Engines.TokenGrouping
