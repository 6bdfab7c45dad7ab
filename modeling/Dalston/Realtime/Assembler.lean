import Mathlib

/-!
# Transcript assembly

The assembler gives every transcript it is handed the stretch of the session that
begins where the last one ended, and moves the words by the same offset.
-/

namespace Dalston.Realtime

structure TranscriptWord where
  text : String
  start : Rat
  «end» : Rat
  confidence : Option Rat

structure TranscriptSegment where
  words : Option (List TranscriptWord)
  confidence : Option Rat

/-- The transcript of an engine, as far as the session reads it. -/
structure Transcript where
  text : String
  segments : List TranscriptSegment
  languageConfidence : Option Rat

/-- A word on the timeline of the session. -/
structure Word where
  word : String
  start : Rat
  «end» : Rat
  confidence : Rat

structure Segment where
  id : String
  start : Rat
  «end» : Rat
  text : String
  words : List Word
  confidence : Rat

def TranscriptWord.toWord (w : TranscriptWord) : Word :=
  ⟨w.text, w.start, w.end, w.confidence.getD 0⟩

def Word.toTranscriptWord (w : Word) : TranscriptWord :=
  ⟨w.word, w.start, w.end, some w.confidence⟩

def Word.shift (offset : Rat) (w : Word) : Word :=
  { w with start := offset + w.start, «end» := offset + w.end }

/-- The words of all segments. -/
def extractWords (transcript : Transcript) : List Word :=
  transcript.segments.flatMap fun segment => (segment.words.getD []).map TranscriptWord.toWord

def mean (values : List Rat) : Rat := values.sum / values.length

def overallConfidence (transcript : Transcript) : Rat :=
  let confidences := transcript.segments.filterMap (·.confidence)
  if confidences.isEmpty then transcript.languageConfidence.getD 0 else mean confidences

/-- `f"seg_{counter:04d}"`. -/
def segmentId (counter : Nat) : String :=
  let digits := toString counter
  "seg_" ++ String.ofList (List.replicate (4 - digits.length) '0') ++ digits

structure TranscriptAssembler where
  segments : List Segment
  currentTime : Rat
  segmentCounter : Nat

namespace TranscriptAssembler

def empty : TranscriptAssembler := ⟨[], 0, 0⟩

/-- The segment of a transcript on the timeline of the session. -/
def place (assembler : TranscriptAssembler) (transcript : Transcript) (audioDuration : Rat) :
    Segment where
  id := segmentId assembler.segmentCounter
  start := assembler.currentTime
  «end» := assembler.currentTime + audioDuration
  text := transcript.text
  words := (extractWords transcript).map (Word.shift assembler.currentTime)
  confidence := overallConfidence transcript

def addTranscript (assembler : TranscriptAssembler) (transcript : Transcript)
    (audioDuration : Rat) : TranscriptAssembler :=
  let segment := assembler.place transcript audioDuration
  ⟨assembler.segments ++ [segment], segment.end, assembler.segmentCounter + 1⟩

end TranscriptAssembler

/-- The transcript of the words that a streaming decoder has yielded. -/
def streamingTranscript (textParts : List String) (words : List Word) : Transcript :=
  let confidences := (words.map (·.confidence)).filter (· ≠ 0)
  let confidence := if confidences.isEmpty then 19 / 20 else mean confidences
  ⟨" ".intercalate textParts, [⟨some (words.map Word.toTranscriptWord), some confidence⟩],
    some confidence⟩

/-- The end of the last word. -/
def lastEnd (words : List Word) : Rat := (words.getLast?.map (·.end)).getD 0

@[simp] theorem Word.shift_zero (w : Word) : w.shift 0 = w := by
  simp [Word.shift]

theorem extractWords_streamingTranscript (textParts : List String) (words : List Word) :
    extractWords (streamingTranscript textParts words) = words := by
  simp only [extractWords, streamingTranscript, List.flatMap_cons, List.flatMap_nil,
    Option.getD_some, List.map_map, List.append_nil]
  exact List.map_id' words

/-- Moving words by an offset leaves them in place only if the offset is zero. -/
theorem map_shift_eq_self {words : List Word} (hwords : words ≠ []) (offset : Rat) :
    words.map (Word.shift offset) = words ↔ offset = 0 := by
  constructor
  · intro h
    obtain ⟨w, rest, rfl⟩ := List.exists_cons_of_ne_nil hwords
    rw [List.map_cons, List.cons.injEq] at h
    have hstart : offset + w.start = w.start := congrArg Word.start h.1
    linarith
  · rintro rfl
    have hid : Word.shift 0 = id := funext Word.shift_zero
    rw [hid, List.map_id]

end Dalston.Realtime
