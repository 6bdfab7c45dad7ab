import Dalston.Foundation.Results
import Dalston.Foundation.Tokens
import Dalston.Model.Rounding
import Dalston.Model.TextWrap

/-!
# Merging the transcripts of chunks

Long audio is transcribed in chunks, whose transcripts become one: each segment and each
word is built anew with its times moved by the offset of its chunk, and the fields of the
transcripts are joined. The characters and phonemes of a word are passed on as they are.

## Implementation notes

The metadata of a word or segment is passed as keyword arguments, so a key that is the
name of a parameter is an error. Confidences are rationals, whose mean is exact. The
constraints on the values of the fields, such as times that are not negative, are kept by
the merge and are left out.
-/

namespace Dalston.Engines

open Foundation Model
open Model.TextWrap (Text isSpace)

inductive TimestampGranularity
  | none
  | segment
  | word
  | character
  | phoneme

inductive AlignmentMethod
  | attention
  | ctc
  | rnnt
  | tdt
  | phonemeWav2vec
  | phonemeMms
  | mfa
  | wfst
  | unknown

structure Phoneme where
  phoneme : String
  start : Rat
  «end» : Rat
  confidence : Option Rat
  stress : Option Nat

structure Character where
  char : Char
  start : Rat
  «end» : Rat
  confidence : Option Rat
  phonemes : Option (List Phoneme)

structure TranscriptWord where
  text : Text
  start : Rat
  «end» : Rat
  confidence : Option Rat
  alignmentMethod : AlignmentMethod
  language : Option String
  characters : Option (List Character)
  phonemes : Option (List Phoneme)
  metadata : Config

structure TranscriptSegment where
  id : Option String
  start : Rat
  «end» : Rat
  text : Text
  words : Option (List TranscriptWord)
  language : Option String
  languageConfidence : Option Rat
  confidence : Option Rat
  isFinal : Option Bool
  isSpeech : Option Bool
  metadata : Config

structure LanguageInfo where
  code : String
  confidence : Rat
  isPrimary : Bool

inductive LanguageSource
  | requested
  | detected

structure Transcript where
  text : Text
  segments : List TranscriptSegment
  language : String
  languageConfidence : Option Rat
  languageSource : Option LanguageSource
  languages : Option (List LanguageInfo)
  duration : Option Rat
  timestampGranularity : TimestampGranularity
  alignmentMethod : AlignmentMethod
  engineId : String
  channel : Option Int
  warnings : List String
  metadata : Config

/-- `TypeError`, for a parameter that gets several values. -/
inductive MergeError
  | multipleValues (parameter : String)

section Builders

/-- A call with keyword arguments besides the parameters it names. -/
def callWith {A : Type} (parameters : List String) (extra : Config) (result : A) :
    Except MergeError A :=
  match extra.find? fun kv => kv.1 ∈ parameters with
  | some kv => .error (.multipleValues kv.1)
  | none => .ok result

def WORD_PARAMETERS : List String :=
  ["text", "start", "end", "confidence", "alignment_method", "characters", "phonemes"]

/-- `build_word`. -/
def buildWord (text : Text) (start stop : Rat) (confidence : Option Rat)
    (alignmentMethod : AlignmentMethod) (characters : Option (List Character))
    (phonemes : Option (List Phoneme)) (extra : Config) : Except MergeError TranscriptWord :=
  callWith WORD_PARAMETERS extra
    { text := text
      start := start
      «end» := stop
      confidence := confidence
      alignmentMethod := alignmentMethod
      language := none
      characters := characters
      phonemes := phonemes
      metadata := extra }

def SEGMENT_PARAMETERS : List String :=
  ["start", "end", "text", "words", "language", "confidence", "segment_id", "is_final",
    "is_speech"]

/-- `build_segment`. -/
def buildSegment (start stop : Rat) (text : Text) (words : Option (List TranscriptWord))
    (language : Option String) (confidence : Option Rat) (segmentId : Option String)
    (isFinal isSpeech : Option Bool) (extra : Config) : Except MergeError TranscriptSegment :=
  callWith SEGMENT_PARAMETERS extra
    { id := segmentId
      start := start
      «end» := stop
      text := text
      words := words
      language := language
      languageConfidence := none
      confidence := confidence
      isFinal := isFinal
      isSpeech := isSpeech
      metadata := extra }

/-- `any(seg.words for seg in segments)`. -/
def hasWords (segments : List TranscriptSegment) : Bool :=
  segments.any fun seg => seg.words.any fun words => !words.isEmpty

/-- The granularity of segments: that of words if there are any. -/
def granularityOf (segments : List TranscriptSegment) : TimestampGranularity :=
  if hasWords segments then .word else .segment

/-- `build_transcript`, without extra fields and without a demand for words. -/
def buildTranscript (text : Text) (segments : List TranscriptSegment) (language engineId : String)
    (languageConfidence : Option Rat) (alignmentMethod : AlignmentMethod) (channel : Option Int)
    (warnings : List String) : Transcript where
  text := text
  segments := segments
  language := language
  languageConfidence := languageConfidence
  languageSource := none
  languages := none
  duration := none
  timestampGranularity := granularityOf segments
  alignmentMethod := alignmentMethod
  engineId := engineId
  channel := channel
  warnings := warnings
  metadata := []

end Builders

section Merge

/-- `round(x + offset, 3)`. -/
def shiftTime (offset x : Rat) : Rat := roundMs (x + offset)

def mergeWord (offset : Rat) (w : TranscriptWord) : Except MergeError TranscriptWord :=
  buildWord w.text (shiftTime offset w.start) (shiftTime offset w.end) w.confidence
    w.alignmentMethod w.characters w.phonemes w.metadata

/-- The words of a segment, if it has a list of them. -/
def mergeWords (offset : Rat) : Option (List TranscriptWord) →
    Except MergeError (Option (List TranscriptWord))
  | none => .ok none
  | some words => (words.mapM (mergeWord offset)).map some

def mergeSegment (offset : Rat) (seg : TranscriptSegment) : Except MergeError TranscriptSegment := do
  let words ← mergeWords offset seg.words
  buildSegment (shiftTime offset seg.start) (shiftTime offset seg.end) seg.text words seg.language
    seg.confidence seg.id seg.isFinal seg.isSpeech seg.metadata

def addWarning (warnings : List String) (warn : String) : List String :=
  if warn ∈ warnings then warnings else warnings ++ [warn]

/-- The mean of the confidences that there are. -/
def meanConfidence (confidences : List Rat) : Option Rat :=
  if confidences = [] then none else some (confidences.sum / confidences.length)

def mergeTexts (texts : List Text) : Text :=
  trim isSpace (joinWith ' ' ((texts.filter fun text => !text.isEmpty).map (trim isSpace)))

/-- The segments of all chunks with the offsets of their chunks. -/
def offsetSegments (chunkResults : List (Transcript × Rat)) : List (TranscriptSegment × Rat) :=
  chunkResults.flatMap fun chunk => chunk.1.segments.map fun seg => (seg, chunk.2)

def NO_SPEECH_WARNING : String :=
  "No speech detected by VAD; transcript is empty. If the audio does contain speech, lower " ++
    "DALSTON_VAD_THRESHOLD (narrowband/telephony audio often needs 0.3)."

/-- `_merge_chunk_transcripts`, for an engine with the given id. -/
def mergeChunkTranscripts (engineId : String) (chunkResults : List (Transcript × Rat)) :
    Except MergeError Transcript :=
  match chunkResults with
  | [] => .ok (buildTranscript [] [] "und" engineId none .unknown none [NO_SPEECH_WARNING])
  | first :: rest => do
      let transcripts := (first :: rest).map Prod.fst
      let segments ← (offsetSegments (first :: rest)).mapM fun seg => mergeSegment seg.2 seg.1
      return buildTranscript (mergeTexts (transcripts.map Transcript.text)) segments
        first.1.language first.1.engineId
        (meanConfidence (transcripts.filterMap Transcript.languageConfidence))
        first.1.alignmentMethod first.1.channel
        ((transcripts.flatMap Transcript.warnings).foldl addWarning [])

end Merge

section Shift

/-- A time within a word later by an offset, in whole milliseconds if it moves at all. -/
def shiftDetail (offset x : Rat) : Rat := if offset = 0 then x else shiftTime offset x

def shiftPhonemes (offset : Rat) (phonemes : Option (List Phoneme)) : Option (List Phoneme) :=
  phonemes.map fun ps => ps.map fun p =>
    { p with start := shiftDetail offset p.start, «end» := shiftDetail offset p.end }

def shiftCharacters (offset : Rat) (characters : Option (List Character)) :
    Option (List Character) :=
  characters.map fun cs => cs.map fun c =>
    { c with
      start := shiftDetail offset c.start
      «end» := shiftDetail offset c.end
      phonemes := shiftPhonemes offset c.phonemes }

/-- The word with its characters and phonemes later by an offset, in whole milliseconds. -/
def shiftWord (offset : Rat) (w : TranscriptWord) : TranscriptWord :=
  { w with
    start := shiftTime offset w.start
    «end» := shiftTime offset w.end
    characters := shiftCharacters offset w.characters
    phonemes := shiftPhonemes offset w.phonemes }

/-- The segment and its words later by an offset. -/
def shiftSegment (offset : Rat) (seg : TranscriptSegment) : TranscriptSegment :=
  { seg with
    start := shiftTime offset seg.start
    «end» := shiftTime offset seg.end
    words := seg.words.map fun words => words.map (shiftWord offset) }

def phonemeTimes (phonemes : Option (List Phoneme)) : List Rat :=
  (phonemes.getD []).flatMap fun p => [p.start, p.end]

def characterTimes (characters : Option (List Character)) : List Rat :=
  (characters.getD []).flatMap fun c => c.start :: c.end :: phonemeTimes c.phonemes

/-- The times of the characters and phonemes of a word. -/
def detailTimes (w : TranscriptWord) : List Rat :=
  characterTimes w.characters ++ phonemeTimes w.phonemes

/-- Nothing of the word is lost: it has no language of its own, no key of its metadata is the name
of a parameter, and the offset leaves the times of its characters and phonemes as they are. -/
def WordKept (offset : Rat) (w : TranscriptWord) : Prop :=
  (∀ kv ∈ w.metadata, kv.1 ∉ WORD_PARAMETERS) ∧ w.language = none ∧
    (offset = 0 ∨ ∀ x ∈ detailTimes w, shiftTime offset x = x)

/-- Nothing of the segment is lost: its language has no confidence, and no key of its metadata is
the name of a parameter. -/
def SegmentKept (offset : Rat) (seg : TranscriptSegment) : Prop :=
  (∀ words ∈ seg.words, ∀ w ∈ words, WordKept offset w) ∧
    (∀ kv ∈ seg.metadata, kv.1 ∉ SEGMENT_PARAMETERS) ∧ seg.languageConfidence = none

theorem callWith_eq_ok {A : Type} {parameters : List String} {extra : Config} {result a : A} :
    callWith parameters extra result = .ok a ↔
      (∀ kv ∈ extra, kv.1 ∉ parameters) ∧ result = a := by
  unfold callWith
  cases hfind : extra.find? fun kv => kv.1 ∈ parameters with
  | none =>
      have hfree : ∀ kv ∈ extra, kv.1 ∉ parameters := by simpa using hfind
      simp only [Except.ok.injEq]
      exact (and_iff_right hfree).symm
  | some kv =>
      have hin : kv.1 ∈ parameters := by simpa using List.find?_some hfind
      exact iff_of_false (by simp) fun h => h.1 kv (List.mem_of_find?_eq_some hfind) hin

theorem map_eq_self_iff {A : Type} {f : A → A} {xs : List A} :
    xs.map f = xs ↔ ∀ x ∈ xs, f x = x := by
  have h := List.map_inj_left (l := xs) (f := f) (g := id)
  rw [List.map_id] at h
  exact h

theorem optionMap_eq_self_iff {A : Type} {f : A → A} {xs : Option (List A)} :
    (xs.map fun ys => ys.map f) = xs ↔ ∀ x ∈ xs.getD [], f x = x := by
  cases xs with
  | none => simp
  | some ys =>
      rw [Option.map_some, Option.some.injEq]
      exact map_eq_self_iff

theorem shiftPhonemes_eq_self_iff {offset : Rat} {phonemes : Option (List Phoneme)} :
    shiftPhonemes offset phonemes = phonemes ↔
      ∀ x ∈ phonemeTimes phonemes, shiftDetail offset x = x := by
  rw [shiftPhonemes, optionMap_eq_self_iff, phonemeTimes, List.forall_mem_flatMap]
  refine forall₂_congr fun p _ => ?_
  cases p
  simp

theorem shiftCharacters_eq_self_iff {offset : Rat} {characters : Option (List Character)} :
    shiftCharacters offset characters = characters ↔
      ∀ x ∈ characterTimes characters, shiftDetail offset x = x := by
  rw [shiftCharacters, optionMap_eq_self_iff, characterTimes, List.forall_mem_flatMap]
  refine forall₂_congr fun c _ => ?_
  rw [List.forall_mem_cons, List.forall_mem_cons, ← shiftPhonemes_eq_self_iff]
  cases c
  simp

/-- The characters and phonemes of a word are left as they are. -/
theorem detail_eq_self_iff {offset : Rat} {w : TranscriptWord} :
    (shiftCharacters offset w.characters = w.characters ∧
      shiftPhonemes offset w.phonemes = w.phonemes) ↔
      (offset = 0 ∨ ∀ x ∈ detailTimes w, shiftTime offset x = x) := by
  rw [shiftCharacters_eq_self_iff, shiftPhonemes_eq_self_iff, ← List.forall_mem_append]
  by_cases hzero : offset = 0
  · simp [shiftDetail, hzero]
  · simp [shiftDetail, hzero, detailTimes]

theorem mergeWord_eq_iff (offset : Rat) {w : TranscriptWord} :
    mergeWord offset w = .ok (shiftWord offset w) ↔ WordKept offset w := by
  rw [mergeWord, buildWord, callWith_eq_ok, WordKept, ← detail_eq_self_iff]
  refine and_congr_right fun _ => ?_
  cases w
  simp [shiftWord, eq_comm]

theorem mergeWords_eq_iff (offset : Rat) {words : Option (List TranscriptWord)} :
    mergeWords offset words = .ok (words.map fun ws => ws.map (shiftWord offset)) ↔
      ∀ ws ∈ words, ∀ w ∈ ws, WordKept offset w := by
  cases words with
  | none => simp [mergeWords]
  | some ws =>
      simp only [Option.mem_some_iff, forall_eq', ← mergeWord_eq_iff offset]
      rw [← mapM_eq_ok_map, mergeWords]
      cases ws.mapM (mergeWord offset) with
      | error e => simp [Except.map]
      | ok ws' => simp [Except.map]

theorem mergeSegment_eq_iff {offset : Rat} {seg : TranscriptSegment} :
    mergeSegment offset seg = .ok (shiftSegment offset seg) ↔ SegmentKept offset seg := by
  rw [mergeSegment, SegmentKept, ← mergeWords_eq_iff offset]
  cases hwords : mergeWords offset seg.words with
  | error e => simp [bind, Except.bind]
  | ok words =>
      simp only [bind, Except.bind, buildSegment, callWith_eq_ok, Except.ok.injEq]
      cases seg
      simp only [shiftSegment, TranscriptSegment.mk.injEq, true_and, and_true]
      constructor
      · rintro ⟨hkeys, hsame, hconfidence⟩
        exact ⟨hsame, hkeys, hconfidence.symm⟩
      · rintro ⟨hsame, hkeys, hconfidence⟩
        exact ⟨hkeys, hsame, hconfidence.symm⟩

end Shift

section Fields

theorem nodup_addWarning {warnings : List String} (h : warnings.Nodup) (warn : String) :
    (addWarning warnings warn).Nodup := by
  unfold addWarning
  split
  · exact h
  · rename_i hnew
    rw [← List.concat_eq_append]
    exact h.concat hnew

theorem nodup_foldl_addWarning {warnings : List String} (h : warnings.Nodup)
    (more : List String) : (more.foldl addWarning warnings).Nodup := by
  induction more generalizing warnings with
  | nil => exact h
  | cons warn rest ih => exact ih (nodup_addWarning h warn)

theorem foldl_addWarning {warnings more : List String} (h : (warnings ++ more).Nodup) :
    more.foldl addWarning warnings = warnings ++ more := by
  induction more generalizing warnings with
  | nil => simp
  | cons warn rest ih =>
      have hnew : warn ∉ warnings := fun hin =>
        (List.disjoint_of_nodup_append h) hin List.mem_cons_self
      rw [List.foldl_cons, addWarning, if_neg hnew, ih (by simpa using h)]
      simp

/-- The warnings are kept exactly if none is there twice. -/
theorem foldl_addWarning_eq_iff {warnings : List String} :
    warnings.foldl addWarning [] = warnings ↔ warnings.Nodup := by
  constructor
  · intro h
    exact h ▸ nodup_foldl_addWarning List.nodup_nil warnings
  · intro h
    exact foldl_addWarning h

theorem mergeTexts_singleton (text : Text) : mergeTexts [text] = trim isSpace text := by
  cases text with
  | nil => rfl
  | cons c rest =>
      rw [mergeTexts, List.filter_cons_of_pos (by simp), List.filter_nil, List.map_singleton,
        joinWith_singleton, trim_eq_self (trimmed_trim _)]

theorem meanConfidence_toList (confidence : Option Rat) :
    meanConfidence confidence.toList = confidence := by
  cases confidence with
  | none => rfl
  | some c => simp [meanConfidence]

end Fields

section Main

variable {engineId : String} {chunkResults : List (Transcript × Rat)}

/-- The merge keeps everything but time: the segments are those of the chunks, in order and later
by their offsets, and a single chunk without an offset is returned as it is. -/
structure Preserved (engineId : String) (chunkResults : List (Transcript × Rat)) : Prop where
  segments : ∃ merged, mergeChunkTranscripts engineId chunkResults = .ok merged ∧
    merged.segments = (offsetSegments chunkResults).map fun seg => shiftSegment seg.2 seg.1
  single : ∀ t, chunkResults = [(t, 0)] → mergeChunkTranscripts engineId chunkResults = .ok t

/-- The times of a segment and its words are whole milliseconds. -/
def WholeMs (seg : TranscriptSegment) : Prop :=
  (roundMs seg.start = seg.start ∧ roundMs seg.end = seg.end) ∧
    ∀ words ∈ seg.words, ∀ w ∈ words, roundMs w.start = w.start ∧ roundMs w.end = w.end

/-- Nothing of the transcript of a single chunk is lost. -/
structure TranscriptKept (t : Transcript) : Prop where
  text : trim isSpace t.text = t.text
  times : ∀ seg ∈ t.segments, WholeMs seg
  languageSource : t.languageSource = none
  languages : t.languages = none
  duration : t.duration = none
  granularity : granularityOf t.segments = t.timestampGranularity
  warnings : t.warnings.Nodup
  metadata : t.metadata = []

theorem shiftWord_zero_eq_iff {w : TranscriptWord} :
    shiftWord 0 w = w ↔ roundMs w.start = w.start ∧ roundMs w.end = w.end := by
  obtain ⟨hcharacters, hphonemes⟩ := (@detail_eq_self_iff 0 w).mpr (Or.inl rfl)
  rw [shiftWord, hcharacters, hphonemes]
  cases w
  simp [shiftTime]

theorem shiftSegment_zero_eq_iff {seg : TranscriptSegment} :
    shiftSegment 0 seg = seg ↔ WholeMs seg := by
  have hwords : (seg.words.map fun words => words.map (shiftWord 0)) = seg.words ↔
      ∀ words ∈ seg.words, ∀ w ∈ words, roundMs w.start = w.start ∧ roundMs w.end = w.end := by
    cases seg.words with
    | none => simp
    | some words =>
        simp only [Option.map_some, Option.some.injEq, Option.mem_some_iff, forall_eq',
          ← shiftWord_zero_eq_iff]
        exact map_eq_self_iff
  rw [WholeMs, ← hwords]
  cases seg
  simp [shiftSegment, shiftTime, and_assoc]

/-- The segments are later by their offsets exactly if nothing of them is lost. -/
theorem segments_eq_iff : (∃ merged, mergeChunkTranscripts engineId chunkResults = .ok merged ∧
      merged.segments = (offsetSegments chunkResults).map fun seg => shiftSegment seg.2 seg.1) ↔
    ∀ chunk ∈ chunkResults, ∀ seg ∈ chunk.1.segments, SegmentKept chunk.2 seg := by
  have hkept : ((offsetSegments chunkResults).mapM fun seg => mergeSegment seg.2 seg.1) =
        .ok ((offsetSegments chunkResults).map fun seg => shiftSegment seg.2 seg.1) ↔
      ∀ chunk ∈ chunkResults, ∀ seg ∈ chunk.1.segments, SegmentKept chunk.2 seg := by
    rw [mapM_eq_ok_map]
    simp only [offsetSegments, List.mem_flatMap, List.mem_map, mergeSegment_eq_iff]
    constructor
    · intro h chunk hchunk seg hseg
      exact h (seg, chunk.2) ⟨chunk, hchunk, seg, hseg, rfl⟩
    · rintro h _ ⟨chunk, hchunk, seg, hseg, rfl⟩
      exact h chunk hchunk seg hseg
  rw [← hkept]
  cases chunkResults with
  | nil => exact iff_of_true ⟨_, rfl, rfl⟩ rfl
  | cons first rest =>
      rw [mergeChunkTranscripts]
      cases (offsetSegments (first :: rest)).mapM fun seg => mergeSegment seg.2 seg.1 with
      | error e => simp [bind, Except.bind]
      | ok segments => simp [bind, Except.bind, pure, Except.pure, buildTranscript]

/-- A single chunk is returned exactly if nothing of it is lost. -/
theorem single_eq_iff {t : Transcript} (h : ∀ seg ∈ t.segments, SegmentKept 0 seg) :
    mergeChunkTranscripts engineId [(t, 0)] = .ok t ↔ TranscriptKept t := by
  have hsegments : (offsetSegments [(t, 0)]).mapM (fun seg => mergeSegment seg.2 seg.1) =
      .ok (t.segments.map (shiftSegment 0)) := by
    have hmap := (mapM_eq_ok_map (f := mergeSegment 0) (g := shiftSegment 0) t.segments).mpr
      fun seg hseg => mergeSegment_eq_iff.mpr (h seg hseg)
    simpa [offsetSegments, List.mapM_map, Function.comp_def] using hmap
  have htimes : t.segments.map (shiftSegment 0) = t.segments ↔ ∀ seg ∈ t.segments, WholeMs seg := by
    simp only [← shiftSegment_zero_eq_iff]
    exact map_eq_self_iff
  have hconfidence : meanConfidence ([t].filterMap Transcript.languageConfidence) =
      t.languageConfidence := by
    rw [← meanConfidence_toList t.languageConfidence]
    cases hc : t.languageConfidence with
    | none => simp [hc]
    | some c => simp [hc]
  rw [mergeChunkTranscripts, hsegments]
  simp only [bind, Except.bind, pure, Except.pure, Except.ok.injEq, List.map_singleton,
    List.flatMap_singleton, hconfidence, mergeTexts_singleton]
  constructor
  · intro heq
    have hsame : t.segments.map (shiftSegment 0) = t.segments := congrArg Transcript.segments heq
    exact
      { text := congrArg Transcript.text heq
        times := htimes.mp hsame
        languageSource := (congrArg Transcript.languageSource heq).symm
        languages := (congrArg Transcript.languages heq).symm
        duration := (congrArg Transcript.duration heq).symm
        granularity := hsame ▸ congrArg Transcript.timestampGranularity heq
        warnings := foldl_addWarning_eq_iff.mp (congrArg Transcript.warnings heq)
        metadata := (congrArg Transcript.metadata heq).symm }
  · intro hkept
    have hsame := htimes.mpr hkept.times
    have hwarnings := foldl_addWarning_eq_iff.mpr hkept.warnings
    obtain ⟨htext, -, hsource, hlanguages, hduration, hgranularity, -, hmetadata⟩ := hkept
    rw [hsame, hwarnings, htext]
    cases t
    simp_all [buildTranscript]

/-- The merge keeps everything but time exactly if no segment and no word loses anything, and a
single chunk without an offset loses nothing of its transcript. -/
theorem mergeChunkTranscripts_exact (engineId : String)
    (chunkResults : List (Transcript × Rat)) :
    Preserved engineId chunkResults ↔
      (∀ chunk ∈ chunkResults, ∀ seg ∈ chunk.1.segments, SegmentKept chunk.2 seg) ∧
        ∀ t, chunkResults = [(t, 0)] → TranscriptKept t := by
  constructor
  · rintro ⟨hsegments, hsingle⟩
    have hkept := segments_eq_iff.mp hsegments
    refine ⟨hkept, fun t ht => ?_⟩
    subst ht
    exact (single_eq_iff (hkept (t, 0) (List.mem_singleton_self _))).mp (hsingle t rfl)
  · rintro ⟨hkept, hsingle⟩
    refine ⟨segments_eq_iff.mpr hkept, fun t ht => ?_⟩
    subst ht
    exact (single_eq_iff (hkept (t, 0) (List.mem_singleton_self _))).mpr (hsingle t rfl)

/-- A chunk of one segment, whose language the engine has detected with some confidence. -/
def detectedChunk (text : Text) (language : String) : Transcript :=
  { buildTranscript text
      [{ id := none
         start := 0
         «end» := 1
         text := text
         words := none
         language := some language
         languageConfidence := some (9 / 10)
         confidence := none
         isFinal := none
         isSpeech := none
         metadata := [] }]
      language "faster-whisper" none .unknown none [] with
    languageSource := some .detected }

/-- The confidence of a segment's language does not survive. -/
theorem detectedChunks_lossy :
    ¬ Preserved "faster-whisper" [(detectedChunk "dobar dan".toList "hr", 0),
      (detectedChunk "good day".toList "en", 30)] := by
  rintro ⟨hsegments, -⟩
  obtain ⟨-, -, hconfidence⟩ := segments_eq_iff.mp hsegments _ List.mem_cons_self _
    List.mem_cons_self
  cases hconfidence

end Main

end Dalston.Engines
