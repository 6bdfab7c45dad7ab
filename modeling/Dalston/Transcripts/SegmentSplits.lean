import Dalston.Foundation.Tokens
import Dalston.Model.TextWrap
import Dalston.Transcripts.SpeakerWindows

/-!
# Segments split by speaker

A segment whose windows have several speakers is split. With words, each word gets a
speaker, the words of one speaker in a row become a part, and parts of too few words go
to a neighbour. Without words, the tokens of the text are dealt out to the windows by
their places in the text.

## Implementation notes

The source's loop over the tokens moves a window index forward; here each window takes
the tokens that come before its end, and the last window takes the rest. The loop that
merges short parts is given a number of rounds, and has no result when they run out.
The fields that a part passes on unread are one record.
-/

namespace Dalston.Transcripts

open Foundation Model.TextWrap

structure Word where
  text : Text
  start : Rat
  «end» : Rat

/-- A part of a split segment. -/
structure Part where
  start : Rat
  «end» : Rat
  text : Text
  speaker : Option String
  words : Option (List Word)

section Speakers

/-- The turn at hand is nearer than every turn before it. -/
def nearer (distance : Rat) (nearest : Option (String × Rat)) : Bool :=
  nearest.all fun n => distance < n.2

/-- `_find_nearest_turn_speaker`, from the nearest turn so far. -/
def findNearestFrom (atTime : Rat) : Option (String × Rat) → List SpeakerTurn → Option String
  | nearest, [] => nearest.map (·.1)
  | nearest, turn :: rest =>
      if turn.start ≤ atTime ∧ atTime ≤ turn.end then some turn.speaker
      else
        let distance := if atTime < turn.start then turn.start - atTime else atTime - turn.end
        findNearestFrom atTime
          (if nearer distance nearest then some (turn.speaker, distance) else nearest) rest

def findNearestTurnSpeaker (atTime : Rat) (turns : List SpeakerTurn) : Option String :=
  findNearestFrom atTime none turns

/-- `_is_sentence_ending`. -/
def isSentenceEnding (text : Text) : Bool :=
  (text.reverse.dropWhile isSpace).head?.any fun c => c ∈ ['.', '!', '?']

def findStartTurnSpeaker (wordStart : Rat) (turns : List SpeakerTurn) : Option String :=
  (turns.find? fun turn => turn.start ≤ wordStart && wordStart ≤ turn.end).map (·.speaker)

/-- `_assign_speaker_to_word`. -/
def assignSpeakerToWord (word : Word) (turns : List SpeakerTurn) : Option String :=
  if turns = [] ∨ word.end < word.start then none
  else if word.end = word.start then findNearestTurnSpeaker word.start turns
  else
    (if isSentenceEnding word.text then findStartTurnSpeaker word.start turns else none) <|>
      findSpeakerByOverlap word.start word.end turns <|>
        findNearestTurnSpeaker ((word.start + word.end) / 2) turns

end Speakers

section Words

/-- `(w.start, w.end)` in the order of tuples. -/
def wordBefore (v w : Word) : Prop := v.start < w.start ∨ v.start = w.start ∧ v.end ≤ w.end

instance (v w : Word) : Decidable (wordBefore v w) := inferInstanceAs (Decidable (_ ∨ _))

def sortWords (words : List Word) : List Word := words.insertionSort wordBefore

/-- `" ".join(w.text.strip() for w in words if w.text.strip())`. -/
def joinWords (words : List Word) : Text :=
  joinWith ' ' ((words.map fun w => trim isSpace w.text).filter fun t => !t.isEmpty)

/-- A run of words as a part, unless it has no text. -/
def closeRun (speaker : Option String) : List Word → List Part
  | [] => []
  | first :: rest =>
      if joinWords (first :: rest) = [] then []
      else
        [{ start := first.start
           «end» := max (rest.getLastD first).end (rest.getLastD first).start
           text := joinWords (first :: rest)
           speaker := speaker
           words := some (first :: rest) }]

/-- The loop of `_split_words_by_speaker`, with the run at hand and its speaker. -/
def splitRuns (turns : List SpeakerTurn) : Option String → List Word → List Word → List Part
  | currentSpeaker, currentWords, [] => closeRun currentSpeaker currentWords
  | currentSpeaker, currentWords, word :: rest =>
      if word.end < word.start then splitRuns turns currentSpeaker currentWords rest
      else
        let speaker := assignSpeakerToWord word turns
        if currentWords ≠ [] ∧ speaker ≠ currentSpeaker then
          closeRun currentSpeaker currentWords ++ splitRuns turns speaker [word] rest
        else splitRuns turns speaker (currentWords ++ [word]) rest

def splitWordsBySpeaker (words : List Word) (turns : List SpeakerTurn) : List Part :=
  splitRuns turns none [] (sortWords words)

end Words

section Merge

def MIN_SEGMENT_WORDS : Nat := 2

/-- `len(part.get("words") or part["text"].split())`. -/
def wordCount (part : Part) : Nat :=
  match part.words with
  | some (w :: ws) => (w :: ws).length
  | _ => (tokens isSpace part.text).length

/-- The place of the neighbour that has more words. -/
def mergeTarget (merged : List Part) (i : Nat) : Option Nat :=
  match (if 0 < i then merged[i - 1]? else none), merged[i + 1]? with
  | some prev, some nxt => if wordCount nxt ≤ wordCount prev then some (i - 1) else some (i + 1)
  | some _, none => some (i - 1)
  | none, some _ => some (i + 1)
  | none, none => none

def combinedWords (first second : Part) : Option (List Word) :=
  match first.words.getD [] ++ second.words.getD [] with
  | [] => none
  | w :: ws => some (w :: ws)

/-- The part `s` is joined to the part `t` before it. -/
def mergeBack (t s : Part) : Part where
  start := t.start
  «end» := max s.end t.end
  text := trim isSpace (t.text ++ ' ' :: s.text)
  speaker := t.speaker
  words := combinedWords t s

/-- The part `s` is joined to the part `t` after it. -/
def mergeAhead (s t : Part) : Part where
  start := min s.start t.start
  «end» := t.end
  text := trim isSpace (s.text ++ ' ' :: t.text)
  speaker := t.speaker
  words := combinedWords s t

/-- The short part at a place is joined to its target and removed. -/
def mergeAt (merged : List Part) (i target : Nat) : List Part :=
  match merged[target]?, merged[i]? with
  | some t, some s =>
      if target < i then (merged.set target (mergeBack t s)).eraseIdx i
      else (merged.set target (mergeAhead s t)).eraseIdx i
  | _, _ => merged

/-- The first place whose part is short and has a neighbour, with the neighbour's place. -/
def firstShort (minWords : Nat) (merged : List Part) : Option (Nat × Nat) :=
  (List.range merged.length).findSome? fun i =>
    if minWords ≤ ((merged[i]?).elim 0 wordCount) then none
    else (mergeTarget merged i).map (i, ·)

/-- The `while` loop of `_merge_short_splits`. -/
def mergeLoop (minWords : Nat) : Nat → List Part → Option (List Part)
  | 0, _ => none
  | rounds + 1, merged =>
      match firstShort minWords merged with
      | none => some merged
      | some (i, target) => mergeLoop minWords rounds (mergeAt merged i target)

def mergeShortSplits (minWords rounds : Nat) (parts : List Part) : Option (List Part) :=
  if parts.length ≤ 1 ∨ minWords ≤ 1 then some parts else mergeLoop minWords rounds parts

end Merge

section Windows

/-- The tokens of a text with the times of their middles. -/
def placedTokens (segStart duration : Rat) (words : List Text) : List (Rat × Text) :=
  words.zipIdx.map fun t => (segStart + duration * ((t.2 + 1 / 2) / words.length), t.1)

/-- Each window takes the tokens before its end, and the last one takes the rest. -/
def fillBuckets : List Window → List (Rat × Text) → List (List Text)
  | [], _ => []
  | [_], placed => [placed.map (·.2)]
  | window :: w :: rest, placed =>
      (placed.takeWhile fun t => t.1 < window.end).map (·.2) ::
        fillBuckets (w :: rest) (placed.dropWhile fun t => t.1 < window.end)

/-- `_split_text_across_windows`. -/
def splitTextAcrossWindows (segText : Text) (segStart segEnd : Rat) (windows : List Window) :
    List Text :=
  match windows, tokens isSpace segText with
  | [], _ => []
  | _ :: _, [] => windows.map fun _ => []
  | [_], words => [joinWith ' ' words]
  | _ :: _ :: _, words =>
      if segEnd - segStart ≤ 0 then joinWith ' ' words :: windows.tail.map fun _ => []
      else
        (fillBuckets windows (placedTokens segStart (segEnd - segStart) words)).map (joinWith ' ')

/-- A window without a speaker gets the nearest one. -/
def resolveWindow (turns : List SpeakerTurn) (w : Window) : Window :=
  { w with
      speaker := w.speaker <|> findNearestTurnSpeaker ((w.start + w.end) / 2) turns }

def resolveWindows (turns : List SpeakerTurn) (windows : List Window) : List Window :=
  coalesce sameSpeaker extendWindow (windows.map (resolveWindow turns))

def windowPart (piece : Window × Text) : Part where
  start := piece.1.start
  «end» := piece.1.end
  text := piece.2
  speaker := piece.1.speaker
  words := none

end Windows

section Segments

/-- The segment as one part. -/
def wholePart (segStart segEnd : Rat) (segText : Text) (words : Option (List Word))
    (speaker : Option String) : Part :=
  { start := segStart, «end» := segEnd, text := segText, speaker := speaker, words := words }

/-- The parts of a segment whose text is split without words. -/
def splitByWindows (segStart segEnd : Rat) (segText : Text) (turns : List SpeakerTurn)
    (windows : List Window) : List Part :=
  ((resolveWindows turns windows).zip
    (splitTextAcrossWindows segText segStart segEnd (resolveWindows turns windows))).map windowPart

/-- `_split_segment_by_diarization`. -/
def splitSegmentByDiarization (rounds : Nat) (segStart segEnd : Rat) (segText : Text)
    (words : Option (List Word)) (turns : List SpeakerTurn) : Option (List Part) :=
  if turns = [] then some [wholePart segStart segEnd segText words none]
  else
    match buildSpeakerWindows segStart segEnd turns with
    | [] =>
        some [wholePart segStart segEnd segText words (findSpeakerByOverlap segStart segEnd turns)]
    | [w] => some [wholePart segStart segEnd segText words w.speaker]
    | v :: w :: rest =>
        match splitWordsBySpeaker (words.getD []) turns with
        | [] => some (splitByWindows segStart segEnd segText turns (v :: w :: rest))
        | part :: parts => mergeShortSplits MIN_SEGMENT_WORDS rounds (part :: parts)

/-- What a segment says of itself, which its parts take over. -/
structure SegmentDetail where
  language : Option String
  tokens : Option (List Int)
  temperature : Option Rat
  confidence : Option Rat
  avgLogprob : Option Rat
  compressionRatio : Option Rat
  noSpeechProb : Option Rat

/-- A segment of the transcription or of the alignment, with its words normalized. -/
structure SourceSegment where
  start : Rat
  «end» : Rat
  text : Text
  words : Option (List Word)
  detail : SegmentDetail

structure MergedSegment where
  id : String
  start : Rat
  «end» : Rat
  text : Text
  speaker : Option String
  words : Option (List Word)
  detail : SegmentDetail

/-- `f"seg_{n:03d}"`. -/
def segmentId (n : Nat) : String :=
  "seg_" ++ String.ofList (List.replicate (3 - (toString n).length) '0') ++ toString n

/-- The words of a part are passed on if the engine gave times for words. -/
def outputWords (wordTimestampsAvailable : Bool) (part : Part) : Option (List Word) :=
  match part.words with
  | some (w :: ws) => if wordTimestampsAvailable then some (w :: ws) else none
  | _ => none

def mergedSegment (wordTimestampsAvailable : Bool) (piece : (SegmentDetail × Part) × Nat) :
    MergedSegment where
  id := segmentId piece.2
  start := piece.1.2.start
  «end» := piece.1.2.end
  text := piece.1.2.text
  speaker := piece.1.2.speaker
  words := outputWords wordTimestampsAvailable piece.1.2
  detail := piece.1.1

/-- The parts of every segment in order, numbered from the first to the last. -/
def mergeParts (wordTimestampsAvailable : Bool) (groups : List (SourceSegment × List Part)) :
    List MergedSegment :=
  (groups.flatMap fun group => group.2.map (group.1.detail, ·)).zipIdx.map
    (mergedSegment wordTimestampsAvailable)

/-- `_build_merged_segments`. -/
def buildMergedSegments (rounds : Nat) (turns : List SpeakerTurn) (wordTimestampsAvailable : Bool)
    (segments : List SourceSegment) : Option (List MergedSegment) := do
  let parts ← segments.mapM fun seg =>
    splitSegmentByDiarization rounds seg.start seg.end seg.text seg.words turns
  return mergeParts wordTimestampsAvailable (segments.zip parts)

end Segments

end Dalston.Transcripts
