import Dalston.Engines.CtcAlignment
import Dalston.Model.Rounding
import Dalston.Model.TextWrap

/-!
# Forced alignment of a transcript

The characters of a segment are looked up in the dictionary of the model, their tokens are
aligned to the frames of the segment's audio, and the frames are scaled to seconds. A segment
that cannot be aligned keeps its times.

## Implementation notes

Lower case, the model and the probability of a score are parameters, collected with the
dictionary. Times are rationals. The search of a path may take a number of rounds. The only
interpolation is the one that callers ask for.
-/

namespace Dalston.Engines.ForcedAlignment

open Foundation Model TextWrap CtcAlignment

def SAMPLE_RATE : Rat := 16000

def LANGUAGES_WITHOUT_SPACES : List String := ["ja", "zh"]

structure InputSegment where
  start : Rat
  stop : Rat
  text : Text

structure AlignedWord where
  word : Text
  start : Option Rat
  stop : Option Rat
  score : Option Rat

structure AlignedSegment where
  start : Rat
  stop : Rat
  text : Text
  words : List AlignedWord

structure AlignResult where
  segments : List AlignedSegment
  wordSegments : List AlignedWord

/-- What ends an alignment. -/
inductive AlignError
  | zeroDivision
  | indexError

section Preprocessing

/-- The key of a character in the dictionary. -/
def dictionaryKey (language : String) (lower : Char → Text) (c : Char) : Text :=
  if language ∈ LANGUAGES_WITHOUT_SPACES then lower c
  else (lower c).map fun x => if x = ' ' then '|' else x

/-- The model, with a dictionary of characters: of the names in it that are longer, none is the
key of a character. -/
structure AlignModel where
  language : String
  dictionary : Text → Option Nat
  lower : Char → Text
  forward : List Rat → Option Nat → Emission
  exp : Score → Rat
  single : ∀ c, (dictionary (dictionaryKey language lower c)).isSome = true →
    (dictionaryKey language lower c).length = 1

variable (model : AlignModel)

def AlignModel.spaceless : Bool := decide (model.language ∈ LANGUAGES_WITHOUT_SPACES)

structure SegmentData where
  cleanChars : List Text
  cleanCharIndices : List Nat

def cleanChar (c : Char) : Text :=
  if (model.dictionary (dictionaryKey model.language model.lower c)).isSome then
    dictionaryKey model.language model.lower c
  else ['*']

def numLeading (text : Text) : Nat := (text.takeWhile isSpace).length

def numTrailing (text : Text) : Nat := (text.reverse.takeWhile isSpace).length

/-- The position is not in the white space at either end. -/
def isInner (text : Text) (idx : Nat) : Bool :=
  decide (numLeading text ≤ idx ∧ idx + numTrailing text < text.length)

def preprocessSegment (text : Text) : SegmentData where
  cleanChars := (text.zipIdx.filter fun p => isInner text p.2).map fun p => cleanChar model p.1
  cleanCharIndices := (text.zipIdx.filter fun p => isInner text p.2).map (·.2)

/-- There are characters and not all of them are wildcards. -/
def SegmentData.alignable (sd : SegmentData) : Bool := sd.cleanChars.any (· ≠ ['*'])

def SegmentData.textClean (sd : SegmentData) : Text := sd.cleanChars.flatten

def findBlankId : Nat :=
  ((model.dictionary "[pad]".toList).or (model.dictionary "<pad>".toList)).getD 0

def tokensOf (textClean : Text) : List Int :=
  textClean.map fun c => ((model.dictionary [c]).map Int.ofNat).getD (-1)

end Preprocessing

section Audio

variable (model : AlignModel) (audio : List Rat)

/-- The index of a slice, which counts from the end where it is negative. -/
def sliceIndex (n : Nat) (i : Int) : Nat := if i < 0 then (i + n).toNat else min i.toNat n

def maxDuration : Rat := audio.length / SAMPLE_RATE

/-- The samples of a segment. -/
def waveformOf (seg : InputSegment) : List Rat :=
  (audio.take (sliceIndex audio.length (wholePart (seg.stop * SAMPLE_RATE)))).drop
    (sliceIndex audio.length (wholePart (seg.start * SAMPLE_RATE)))

/-- The emission for a segment, whose samples are padded to 400. -/
def emissionOf (seg : InputSegment) : Emission :=
  let waveform := waveformOf audio seg
  if waveform.length < 400 then
    model.forward (waveform ++ List.replicate (400 - waveform.length) 0) (some waveform.length)
  else model.forward waveform none

/-- The alignment path of a segment. -/
def findPath (seg : InputSegment) (rounds : Nat) : Option (Option (List Point)) :=
  let emission := emissionOf model audio seg
  let tokens := tokensOf model (preprocessSegment model seg.text).textClean
  let blankId := findBlankId model
  backtrack (buildTrellis emission tokens blankId) emission tokens blankId 2 model.exp rounds

end Audio

section Words

/-- The times and the score of a character that is aligned. -/
structure CharTimes where
  start : Rat
  stop : Rat
  score : Rat

structure CharTiming where
  char : Char
  times : Option CharTimes
  wordIdx : Nat

/-- Seconds from the frames of a character. -/
def scaleTimes (ratio t1 : Rat) (cs : CharSegment) : CharTimes where
  start := roundMs (cs.start * ratio + t1)
  stop := roundMs (cs.stop * ratio + t1)
  score := roundMs cs.score

variable (indices : List Nat) (charSegments : List CharSegment) (ratio t1 : Rat)
  (spaceless : Bool)

/-- The times of the character at a position of the text. -/
def timesAt (idx : Nat) : Except AlignError (Option CharTimes) :=
  if idx ∈ indices then
    match charSegments[indices.idxOf idx]? with
    | none => .error .indexError
    | some cs => .ok (some (scaleTimes ratio t1 cs))
  else .ok none

/-- The characters from a position on; a word ends before a space and at the end. -/
def assignCharTimestamps : Text → Nat → Nat → Except AlignError (List CharTiming)
  | [], _, _ => .ok []
  | c :: rest, idx, wordIdx => do
    let times ← timesAt indices charSegments ratio t1 idx
    let next := if spaceless || rest.head?.all (· = ' ') then wordIdx + 1 else wordIdx
    let more ← assignCharTimestamps rest (idx + 1) next
    return ⟨c, times, wordIdx⟩ :: more

/-- The word of a group of characters, unless it is blank; spaces do not count for its
times. -/
def wordOf (chars : List CharTiming) : Option AlignedWord :=
  let wordText := strip (chars.map (·.char))
  let timed := chars.filterMap fun c => if c.char = ' ' then none else c.times
  if wordText = [] then none
  else some {
    word := wordText
    start := (timed.map (·.start)).min?
    stop := (timed.map (·.stop)).max?
    score := if timed = [] then none
      else some (roundMs ((timed.map (·.score)).sum / timed.length)) }

/-- The numbers of the words, sorted. -/
def wordNumbers (charTimings : List CharTiming) : List Nat :=
  (charTimings.map (·.wordIdx)).dedup.insertionSort (· ≤ ·)

def aggregateWords (charTimings : List CharTiming) : List AlignedWord :=
  (wordNumbers charTimings).filterMap fun n => wordOf (charTimings.filter (·.wordIdx = n))

/-- The known position closest to a position, the left one of two. -/
def nearestKnown (known : List Nat) (i : Nat) : Nat :=
  let pos := min (known.countP (· < i)) (known.length - 1)
  let left := known.getD (pos - 1) 0
  let right := known.getD pos 0
  if max i left - min i left ≤ max i right - min i right then left else right

/-- Each gap takes the value of its closest known neighbour. -/
def interpolateNans (values : List (Option Rat)) : List (Option Rat) :=
  let known := values.findIdxs (·.isSome)
  if known = [] ∨ known.length = values.length then values
  else (List.range values.length).map fun i => values.getD (nearestKnown known i) none

def interpolateWordTimestamps (words : List AlignedWord) : List AlignedWord :=
  let starts := interpolateNans (words.map (·.start))
  let stops := interpolateNans (words.map (·.stop))
  (words.zip (starts.zip stops)).map fun p =>
    { p.1 with
      start := p.1.start.or (p.2.1.map roundMs)
      stop := p.1.stop.or (p.2.2.map roundMs) }

end Words

section Align

variable (model : AlignModel) (audio : List Rat) (rounds : Nat)

/-- The seconds of a frame: the segment's length over the frames but one. -/
def frameRatio (frames : Nat) (seg : InputSegment) : Except AlignError Rat :=
  if frames - 1 = 0 then .error .zeroDivision
  else .ok ((seg.stop - seg.start) / (frames - 1 : Nat))

/-- The characters of a segment on its path. -/
def timingsOn (seg : InputSegment) (path : List Point) : Except AlignError (List CharTiming) :=
  let sd := preprocessSegment model seg.text
  match mergeRepeats path sd.textClean with
  | none => .error .indexError
  | some charSegments => do
    let ratio ← frameRatio (emissionOf model audio seg).frames seg
    assignCharTimestamps sd.cleanCharIndices charSegments ratio seg.start model.spaceless
      seg.text 0 0

/-- Without a path the segment keeps its times. -/
def timingsFor (seg : InputSegment) :
    Option (List Point) → Except AlignError (Option (List CharTiming))
  | none => .ok none
  | some path => (timingsOn model audio seg path).map some

/-- The characters of a segment, if it is not to keep its times. -/
def segmentTimings (seg : InputSegment) :
    Option (Except AlignError (Option (List CharTiming))) :=
  if (preprocessSegment model seg.text).alignable = false ∨ maxDuration audio ≤ seg.start then
    some (.ok none)
  else (findPath model audio seg rounds).map (timingsFor model audio seg)

/-- A segment from the first word to the last. -/
def buildSegment (seg : InputSegment) (charTimings : List CharTiming) : AlignedSegment :=
  let words := interpolateWordTimestamps (aggregateWords charTimings)
  { start := roundMs ((words.filterMap (·.start)).min?.getD seg.start)
    stop := roundMs ((words.filterMap (·.stop)).max?.getD seg.stop)
    text := seg.text
    words := words }

def finishSegment (seg : InputSegment) : Option (List CharTiming) → AlignedSegment
  | none => ⟨seg.start, seg.stop, seg.text, []⟩
  | some charTimings => buildSegment seg charTimings

def alignSegment (seg : InputSegment) : Option (Except AlignError AlignedSegment) :=
  (segmentTimings model audio rounds seg).map fun timings => timings.map (finishSegment seg)

def align (transcript : List InputSegment) : Option (Except AlignError AlignResult) :=
  (transcript.mapM (alignSegment model audio rounds)).map fun results => do
    let segments ← results.mapM id
    return ⟨segments, segments.flatMap (·.words)⟩

end Align

section Positions

variable {model : AlignModel} {text : Text}

theorem filter_range_between {a b n : Nat} (h : b ≤ n) :
    (List.range n).filter (fun i => decide (a ≤ i ∧ i < b)) = List.range' a (b - a) := by
  refine List.Perm.eq_of_pairwise' (r := (· < ·)) (List.pairwise_lt_range.filter _)
    List.pairwise_lt_range' ?_
  rw [List.perm_ext_iff_of_nodup (List.nodup_range.filter _) List.nodup_range']
  intro i
  simp only [List.mem_filter, List.mem_range, List.mem_range'_1, decide_eq_true_eq]
  omega

/-- The kept positions are those between the white space at the two ends. -/
theorem cleanCharIndices_eq : (preprocessSegment model text).cleanCharIndices =
    List.range' (numLeading text) (text.length - numTrailing text - numLeading text) := by
  have hinner : (isInner text : Nat → Bool) = fun i =>
      decide (numLeading text ≤ i ∧ i < text.length - numTrailing text) := by
    funext i
    simp only [isInner, decide_eq_decide]
    omega
  calc (preprocessSegment model text).cleanCharIndices
      = (text.zipIdx.map (·.2)).filter (isInner text) := by
        rw [List.filter_map]
        rfl
    _ = (List.range text.length).filter (isInner text) := by
        rw [List.zipIdx_map_snd, List.range_eq_range']
    _ = List.range' (numLeading text) (text.length - numTrailing text - numLeading text) := by
        rw [hinner, filter_range_between (Nat.sub_le _ _)]

theorem length_cleanChars : (preprocessSegment model text).cleanChars.length =
    text.length - numTrailing text - numLeading text := by
  have hlen : (preprocessSegment model text).cleanChars.length =
      (preprocessSegment model text).cleanCharIndices.length := by
    simp [preprocessSegment]
  rw [hlen, cleanCharIndices_eq, List.length_range']

theorem length_cleanChar (c : Char) : (cleanChar model c).length = 1 := by
  rw [cleanChar]
  split
  · next hkey => exact model.single c hkey
  · rfl

/-- Each kept character has one token. -/
theorem length_textClean : (preprocessSegment model text).textClean.length =
    text.length - numTrailing text - numLeading text := by
  have hone : ∀ t ∈ (preprocessSegment model text).cleanChars, t.length = 1 := by
    intro t ht
    obtain ⟨p, -, rfl⟩ := List.mem_map.mp ht
    exact length_cleanChar p.1
  calc (preprocessSegment model text).textClean.length
      = ((preprocessSegment model text).cleanChars.map fun _ => 1).sum := by
        rw [SegmentData.textClean, List.length_flatten, List.map_congr_left hone]
    _ = (preprocessSegment model text).cleanChars.length := by simp
    _ = text.length - numTrailing text - numLeading text := length_cleanChars

theorem isSpace_of_lt_numLeading {s : Text} {i : Nat} {c : Char} (hi : i < numLeading s)
    (hc : s[i]? = some c) : isSpace c = true := by
  have hget : s[i]? = some ((s.takeWhile isSpace)[i]) :=
    List.prefix_iff_getElem?.mp (List.takeWhile_prefix isSpace) i hi
  rw [hc] at hget
  obtain rfl := Option.some.inj hget
  exact List.all_eq_true.mp List.all_takeWhile _ (List.getElem_mem hi)

/-- A character that is no white space is between the white space at the two ends. -/
theorem mem_cleanCharIndices {i : Nat} {c : Char} (hc : text[i]? = some c)
    (hspace : isSpace c = false) : i ∈ (preprocessSegment model text).cleanCharIndices := by
  obtain ⟨hi, -⟩ := List.getElem?_eq_some_iff.mp hc
  have hfirst : ¬ i < numLeading text := by
    intro hlt
    rw [isSpace_of_lt_numLeading hlt hc] at hspace
    cases hspace
  have hlast : ¬ text.length - 1 - i < numTrailing text := by
    intro hlt
    have hback : text.reverse[text.length - 1 - i]? = some c := by
      rw [List.getElem?_reverse (by omega), ← hc]
      congr 1
      omega
    rw [isSpace_of_lt_numLeading hlt hback] at hspace
    cases hspace
  rw [cleanCharIndices_eq, List.mem_range'_1]
  omega

end Positions

section Timings

variable {charSegments : List CharSegment} {ratio t1 : Rat} {spaceless : Bool} {first : Nat}

theorem timesAt_range' (idx : Nat) :
    timesAt (List.range' first charSegments.length) charSegments ratio t1 idx =
      .ok (if first ≤ idx then (charSegments[idx - first]?).map (scaleTimes ratio t1)
        else none) := by
  by_cases hidx : idx ∈ List.range' first charSegments.length
  · obtain ⟨hlow, hhigh⟩ := List.mem_range'_1.mp hidx
    have hlt : idx - first < (List.range' first charSegments.length).length := by
      rw [List.length_range']
      omega
    have hget : (List.range' first charSegments.length)[idx - first] = idx := by
      rw [List.getElem_range'_1]
      omega
    have hpos : (List.range' first charSegments.length).idxOf idx = idx - first := by
      rw [← List.Nodup.idxOf_getElem List.nodup_range' _ hlt, hget]
    have hseg : idx - first < charSegments.length := by omega
    simp [timesAt, hidx, hpos, hlow, List.getElem?_eq_getElem hseg]
  · have hnone : first ≤ idx → charSegments[idx - first]? = none := by
      intro hlow
      rw [List.mem_range'_1] at hidx
      exact List.getElem?_eq_none (by omega)
    by_cases hlow : first ≤ idx
    · simp [timesAt, hidx, hlow, hnone hlow]
    · simp [timesAt, hidx, hlow]

/-- The characters with times are the segments after the skipped ones, the numbers of the words
rise, and only white space has no times. -/
structure TimedBy (charSegments : List CharSegment) (ratio t1 : Rat) (skipped wordIdx : Nat)
    (l : List CharTiming) : Prop where
  times : l.filterMap (·.times) = (charSegments.drop skipped).map (scaleTimes ratio t1)
  numbers : l.Pairwise fun p q => p.wordIdx ≤ q.wordIdx
  least : ∀ c ∈ l, wordIdx ≤ c.wordIdx
  inked : ∀ c ∈ l, isSpace c.char = false → c.times.isSome = true

/-- One more character in front, at a position of the text. -/
theorem TimedBy.cons {l : List CharTiming} {idx wordIdx next : Nat} {c : Char}
    (h : TimedBy charSegments ratio t1 (idx + 1 - first) next l) (hnext : wordIdx ≤ next)
    (hinked : isSpace c = false → first ≤ idx ∧ idx < first + charSegments.length) :
    TimedBy charSegments ratio t1 (idx - first) wordIdx
      (⟨c, if first ≤ idx then (charSegments[idx - first]?).map (scaleTimes ratio t1) else none,
        wordIdx⟩ :: l) := by
  refine ⟨?_, ?_, ?_, ?_⟩
  · rw [List.filterMap_cons, h.times]
    by_cases hlow : first ≤ idx
    · have hskip : idx + 1 - first = idx - first + 1 := by omega
      rw [hskip]
      rcases Nat.lt_or_ge (idx - first) charSegments.length with hlt | hge
      · rw [List.drop_eq_getElem_cons hlt, List.map_cons]
        simp only [hlow, if_true, List.getElem?_eq_getElem hlt, Option.map_some]
      · simp [hlow, List.getElem?_eq_none hge, List.drop_eq_nil_of_le hge,
          List.drop_eq_nil_of_le (hge.trans (Nat.le_succ _))]
    · have hskip : idx + 1 - first = idx - first := by omega
      rw [hskip]
      simp only [hlow, if_false]
  · exact List.pairwise_cons.mpr ⟨fun d hd => hnext.trans (h.least d hd), h.numbers⟩
  · intro d hd
    rcases List.mem_cons.mp hd with rfl | hd
    · exact le_rfl
    · exact hnext.trans (h.least d hd)
  · intro d hd hspace
    rcases List.mem_cons.mp hd with rfl | hd
    · obtain ⟨hlow, hhigh⟩ := hinked hspace
      have hlt : idx - first < charSegments.length := by omega
      simp [hlow, List.getElem?_eq_getElem hlt]
    · exact h.inked d hd hspace

/-- The characters of a text of which the inner ones have a segment each. -/
theorem assignCharTimestamps_timedBy {rest : Text} {idx wordIdx : Nat}
    (hend : first + charSegments.length ≤ idx + rest.length)
    (hinked : ∀ j c, rest[j]? = some c → isSpace c = false →
      first ≤ idx + j ∧ idx + j < first + charSegments.length) :
    ∃ l, assignCharTimestamps (List.range' first charSegments.length) charSegments ratio t1
        spaceless rest idx wordIdx = .ok l ∧
      TimedBy charSegments ratio t1 (idx - first) wordIdx l := by
  induction rest generalizing idx wordIdx with
  | nil =>
      have hskip : charSegments.length ≤ idx - first := by
        rw [List.length_nil] at hend
        omega
      refine ⟨[], rfl, ?_, List.Pairwise.nil, by simp, by simp⟩
      simp [List.drop_eq_nil_of_le hskip]
  | cons c rest ih =>
      obtain ⟨next, hnext, hle⟩ : ∃ next,
          (if spaceless || rest.head?.all (· = ' ') then wordIdx + 1 else wordIdx) = next ∧
            wordIdx ≤ next := by
        refine ⟨_, rfl, ?_⟩
        split <;> omega
      obtain ⟨l, hl, htimed⟩ := @ih (idx + 1) next
        (by rw [List.length_cons] at hend; omega)
        (fun j d hd hspace => by
          have hj := hinked (j + 1) d (by simpa using hd) hspace
          omega)
      refine ⟨_, ?_, htimed.cons hle fun hspace => by simpa using hinked 0 c rfl hspace⟩
      rw [assignCharTimestamps, timesAt_range', hnext]
      simp only [bind, Except.bind, hl]
      rfl

end Timings

section Aggregation

variable {a b : Rat} {l : List CharTiming}

/-- Characters in order, with their times between two ends. -/
structure CharsWithin (a b : Rat) (l : List CharTiming) : Prop where
  bounds : ∀ c ∈ l, ∀ t ∈ c.times, a ≤ t.start ∧ t.start ≤ t.stop ∧ t.stop ≤ b
  ordered : l.Pairwise fun c d =>
    ∀ t ∈ c.times, ∀ u ∈ d.times, t.start ≤ u.start ∧ t.stop ≤ u.stop

/-- Words in order, each with times between two ends. -/
structure WordsWithin (a b : Rat) (words : List AlignedWord) : Prop where
  bounds : ∀ w ∈ words, ∃ start ∈ w.start, ∃ stop ∈ w.stop,
    a ≤ start ∧ start ≤ stop ∧ stop ≤ b
  ordered : words.Pairwise fun v w =>
    (∀ s ∈ v.start, ∀ s' ∈ w.start, s ≤ s') ∧ ∀ e ∈ v.stop, ∀ e' ∈ w.stop, e ≤ e'

/-- The times of the characters of a group that are not spaces. -/
def timedOf (chars : List CharTiming) : List CharTimes :=
  chars.filterMap fun c => if c.char = ' ' then none else c.times

theorem exists_of_mem_timedOf {chars : List CharTiming} {t : CharTimes}
    (h : t ∈ timedOf chars) : ∃ c ∈ chars, t ∈ c.times := by
  obtain ⟨c, hc, ht⟩ := List.mem_filterMap.mp h
  split at ht
  · cases ht
  · exact ⟨c, hc, ht⟩

theorem timedOf_ne_nil {chars : List CharTiming} (hword : strip (chars.map (·.char)) ≠ [])
    (hinked : ∀ c ∈ chars, isSpace c.char = false → c.times.isSome = true) :
    timedOf chars ≠ [] := by
  have hblank : isBlank (chars.map (·.char)) ≠ true := fun h => hword (strip_eq_nil_iff.mpr h)
  obtain ⟨x, hx, hspace⟩ : ∃ x ∈ chars.map (·.char), isSpace x = false := by
    simpa [isBlank] using hblank
  obtain ⟨c, hc, rfl⟩ := List.mem_map.mp hx
  obtain ⟨t, ht⟩ := Option.isSome_iff_exists.mp (hinked c hc hspace)
  have hchar : c.char ≠ ' ' := by
    intro heq
    rw [heq] at hspace
    exact absurd hspace (by decide)
  exact List.ne_nil_of_mem (List.mem_filterMap.mpr ⟨c, hc, by rw [if_neg hchar, ht]⟩)

/-- A word starts with one of its characters, no later than the others, and ends with one of
them, no earlier than the others. -/
theorem wordOf_times {chars : List CharTiming} {w : AlignedWord} (h : wordOf chars = some w)
    (hinked : ∀ c ∈ chars, isSpace c.char = false → c.times.isSome = true) :
    ∃ t ∈ timedOf chars, ∃ u ∈ timedOf chars, w.start = some t.start ∧ w.stop = some u.stop ∧
      t.stop ≤ u.stop := by
  by_cases hword : strip (chars.map (·.char)) = []
  · rw [wordOf, if_pos hword] at h
    cases h
  · have hne := timedOf_ne_nil hword hinked
    rw [wordOf, if_neg hword] at h
    obtain rfl := Option.some.inj h
    have hstarts : (timedOf chars).map (·.start) ≠ [] := by simpa using hne
    have hstops : (timedOf chars).map (·.stop) ≠ [] := by simpa using hne
    obtain ⟨s, hs⟩ := Option.ne_none_iff_exists'.mp (mt List.min?_eq_none_iff.mp hstarts)
    obtain ⟨e, he⟩ := Option.ne_none_iff_exists'.mp (mt List.max?_eq_none_iff.mp hstops)
    obtain ⟨hsmem, -⟩ := List.min?_eq_some_iff.mp hs
    obtain ⟨hemem, hemax⟩ := List.max?_eq_some_iff.mp he
    obtain ⟨t, ht, rfl⟩ := List.mem_map.mp hsmem
    obtain ⟨u, hu, rfl⟩ := List.mem_map.mp hemem
    exact ⟨t, ht, u, hu, hs, he, hemax _ (List.mem_map_of_mem ht)⟩

/-- A character of an earlier word comes first. -/
theorem CharsWithin.earlier (h : CharsWithin a b l)
    (hnumbers : l.Pairwise fun p q => p.wordIdx ≤ q.wordIdx) {c d : CharTiming} (hc : c ∈ l)
    (hd : d ∈ l) (hlt : c.wordIdx < d.wordIdx) {t u : CharTimes} (ht : t ∈ c.times)
    (hu : u ∈ d.times) : t.start ≤ u.start ∧ t.stop ≤ u.stop := by
  obtain ⟨i, hi, rfl⟩ := List.getElem_of_mem hc
  obtain ⟨j, hj, rfl⟩ := List.getElem_of_mem hd
  rcases Nat.lt_or_ge i j with hij | hji
  · exact List.pairwise_iff_getElem.mp h.ordered i j hi hj hij t ht u hu
  · exfalso
    rcases hji.eq_or_lt with rfl | hji
    · exact lt_irrefl _ hlt
    · exact absurd (List.pairwise_iff_getElem.mp hnumbers j i hj hi hji) (not_le.mpr hlt)

theorem wordNumbers_pairwise : (wordNumbers l).Pairwise (· < ·) := by
  have hsorted : (wordNumbers l).Pairwise (· ≤ ·) := List.pairwise_insertionSort _ _
  have hnodup : (wordNumbers l).Nodup :=
    (List.perm_insertionSort _ _).nodup_iff.mpr (List.nodup_dedup _)
  exact hsorted.imp₂ (fun _ _ hle hne => lt_of_le_of_ne hle hne) hnodup

/-- The words are in order and between the ends if the characters are. -/
theorem CharsWithin.words (h : CharsWithin a b l)
    (hnumbers : l.Pairwise fun p q => p.wordIdx ≤ q.wordIdx)
    (hinked : ∀ c ∈ l, isSpace c.char = false → c.times.isSome = true) :
    WordsWithin a b (aggregateWords l) := by
  have htimes : ∀ n w, w ∈ wordOf (l.filter (·.wordIdx = n)) →
      ∃ c ∈ l, ∃ d ∈ l, ∃ t ∈ c.times, ∃ u ∈ d.times, c.wordIdx = n ∧ d.wordIdx = n ∧
        w.start = some t.start ∧ w.stop = some u.stop ∧ t.stop ≤ u.stop := by
    intro n w hw
    obtain ⟨t, ht, u, hu, hstart, hstop, hle⟩ := wordOf_times hw
      fun c hc => hinked c (List.mem_of_mem_filter hc)
    obtain ⟨c, hc, htc⟩ := exists_of_mem_timedOf ht
    obtain ⟨d, hd, hud⟩ := exists_of_mem_timedOf hu
    have hcn := List.mem_filter.mp hc
    have hdn := List.mem_filter.mp hd
    exact ⟨c, hcn.1, d, hdn.1, t, htc, u, hud, by simpa using hcn.2, by simpa using hdn.2,
      hstart, hstop, hle⟩
  refine ⟨fun w hw => ?_, ?_⟩
  · obtain ⟨n, -, hw⟩ := List.mem_filterMap.mp hw
    obtain ⟨c, hc, d, hd, t, ht, u, hu, -, -, hstart, hstop, hle⟩ := htimes n w hw
    obtain ⟨hfirst, hlen, -⟩ := h.bounds c hc t ht
    obtain ⟨-, -, hlast⟩ := h.bounds d hd u hu
    exact ⟨t.start, hstart, u.stop, hstop, hfirst, hlen.trans hle, hlast⟩
  · rw [aggregateWords, List.pairwise_filterMap]
    refine wordNumbers_pairwise.imp fun hlt v hv w hw => ?_
    obtain ⟨c, hc, d, hd, t, ht, u, hu, hcn, hdn, hstart, hstop, -⟩ := htimes _ v hv
    obtain ⟨c', hc', d', hd', t', ht', u', hu', hcn', hdn', hstart', hstop', -⟩ := htimes _ w hw
    constructor
    · intro s hs s' hs'
      rw [hstart] at hs
      rw [hstart'] at hs'
      obtain rfl := Option.some.inj hs
      obtain rfl := Option.some.inj hs'
      exact (h.earlier hnumbers hc hc' (by omega) ht ht').1
    · intro e he e' he'
      rw [hstop] at he
      rw [hstop'] at he'
      obtain rfl := Option.some.inj he
      obtain rfl := Option.some.inj he'
      exact (h.earlier hnumbers hd hd' (by omega) hu hu').2

theorem interpolateNans_eq_self {values : List (Option Rat)}
    (h : ∀ v ∈ values, v.isSome = true) : interpolateNans values = values := by
  have hlen : (values.findIdxs (·.isSome)).length = values.length := by
    rw [List.length_findIdxs, List.countP_eq_length]
    exact h
  rw [interpolateNans, if_pos (Or.inr hlen)]

/-- Words that have times keep them. -/
theorem interpolateWordTimestamps_eq_self {words : List AlignedWord}
    (h : ∀ w ∈ words, w.start.isSome = true ∧ w.stop.isSome = true) :
    interpolateWordTimestamps words = words := by
  have hstarts : interpolateNans (words.map (·.start)) = words.map (·.start) :=
    interpolateNans_eq_self fun v hv => by
      obtain ⟨w, hw, rfl⟩ := List.mem_map.mp hv
      exact (h w hw).1
  have hstops : interpolateNans (words.map (·.stop)) = words.map (·.stop) :=
    interpolateNans_eq_self fun v hv => by
      obtain ⟨w, hw, rfl⟩ := List.mem_map.mp hv
      exact (h w hw).2
  have hword : ∀ w ∈ words, ({ w with
      start := w.start.or (w.start.map roundMs)
      stop := w.stop.or (w.stop.map roundMs) } : AlignedWord) = w := by
    intro w hw
    obtain ⟨hs, he⟩ := h w hw
    obtain ⟨s, hs⟩ := Option.isSome_iff_exists.mp hs
    obtain ⟨e, he⟩ := Option.isSome_iff_exists.mp he
    cases w
    simp_all
  have hzip : words.zip ((words.map (·.start)).zip (words.map (·.stop))) =
      words.map fun w => (w, w.start, w.stop) := by
    have hpairs : (words.map id).zip (words.map fun w => (w.start, w.stop)) =
        words.map fun w => (w, w.start, w.stop) := List.zip_map'
    rwa [List.map_id, ← List.zip_map'] at hpairs
  calc interpolateWordTimestamps words
      = words.map fun w => { w with
          start := w.start.or (w.start.map roundMs)
          stop := w.stop.or (w.stop.map roundMs) } := by
        rw [interpolateWordTimestamps, hstarts, hstops, hzip, List.map_map]
        rfl
    _ = words := by
        rw [List.map_congr_left hword, List.map_id']

end Aggregation

end Dalston.Engines.ForcedAlignment
