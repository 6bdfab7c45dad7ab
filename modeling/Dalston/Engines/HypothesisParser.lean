import Dalston.Engines.StreamingWords
import Dalston.Foundation.Buckets
import Dalston.Foundation.Spans

/-!
# Segments and words of a NeMo hypothesis

A hypothesis brings time stamps for words and for segments that need not agree. Each word goes
to the first segment that contains its midpoint, or else to the nearest one, and the segment
grows over its words.

## Implementation notes

An attribute of the hypothesis counts if it is a dictionary or a list. A confidence is absent
where it cannot be read as a number.
-/

namespace Dalston.Engines.HypothesisParser

open Foundation Model Model.TextWrap
open StreamingWords (NeMoWordResult splitWords)

structure WordStamp where
  word : Option Text := none
  start : Option Rat := none
  stop : Option Rat := none

structure SegmentStamp where
  segment : Option Text := none
  start : Option Rat := none
  stop : Option Rat := none

structure StampDict where
  word : Option (List WordStamp) := none
  segment : Option (List SegmentStamp) := none

/-- What the attribute for time stamps may hold. -/
inductive Stamps
  | dict (stamps : StampDict)
  | frames (timesteps : List Int)

structure Hypothesis where
  timestamp : Option Stamps := none
  timestep : Option Stamps := none
  wordConfidence : Option (List (Option Rat)) := none

structure NeMoSegmentResult where
  start : Rat
  stop : Rat
  text : Text
  words : List NeMoWordResult := []
  confidence : Option Rat := none

/-- The mean confidence of the words that have one. -/
def meanConfidence (words : List NeMoWordResult) : Option Rat :=
  let values := words.filterMap (·.confidence)
  if values = [] then none else some (roundMs (values.sum / values.length))

def Hypothesis.tsDict? (hypothesis : Hypothesis) : Option StampDict :=
  match hypothesis.timestamp with
  | some (.dict stamps) => some stamps
  | _ =>
    match hypothesis.timestep with
    | some (.dict stamps) => some stamps
    | _ => none

section Words

/-- The confidences, if there is one for each word and all are numbers. -/
def confidencesFor (hypothesis : Hypothesis) (count : Nat) : Option (List Rat) :=
  hypothesis.wordConfidence.bind fun raw =>
    if raw.length = count then raw.mapM id else none

def wordResults (hypothesis : Hypothesis) (stamps : List WordStamp) : List NeMoWordResult :=
  let confidences := confidencesFor hypothesis stamps.length
  stamps.zipIdx.map fun p =>
    { word := p.1.word.getD []
      start := roundMs (p.1.start.getD 0)
      stop := roundMs (p.1.stop.getD 0)
      confidence := confidences.bind fun values => values[p.2]?.map roundMs }

end Words

section Segments

/-- The ends and the text of a segment of the hypothesis. -/
structure SegBounds where
  start : Rat
  stop : Rat
  text : Text

def segBounds (stamps : List SegmentStamp) : List SegBounds :=
  stamps.map fun seg => ⟨seg.start.getD 0, seg.stop.getD 0, seg.segment.getD []⟩

def midpoint (w : NeMoWordResult) : Rat := (w.start + w.stop) / 2

def SegBounds.Contains (b : SegBounds) (m : Rat) : Prop := b.start ≤ m ∧ m ≤ b.stop

instance (b : SegBounds) (m : Rat) : Decidable (b.Contains m) :=
  inferInstanceAs (Decidable (_ ∧ _))

/-- The distance of a time to the nearer end. -/
def SegBounds.distance (b : SegBounds) (m : Rat) : Rat := min |m - b.start| |m - b.stop|

def distanceAt (bounds : List SegBounds) (m : Rat) (i : Nat) : Rat :=
  (bounds[i]?.map (·.distance m)).getD 0

/-- The first segment that contains the time, or else the first of the nearest. -/
def target (bounds : List SegBounds) (m : Rat) : Nat :=
  ((bounds.findIdx? fun b => b.Contains m).or
    ((List.range bounds.length).argmin (distanceAt bounds m))).getD 0

def assigned (bounds : List SegBounds) (words : List NeMoWordResult) :
    List (List NeMoWordResult) :=
  deal (fun w => target bounds (midpoint w)) bounds.length words

/-- The ends of a segment that covers its words; its end is that of the last of them. -/
def coveringBounds (b : SegBounds) (words : List NeMoWordResult) : Rat × Rat :=
  match (words.map (·.start)).min?, (words.map (·.stop)).max? with
  | some first, some last => (min b.start first, max last (min b.start first))
  | _, _ => (b.start, b.stop)

def segmentOf (b : SegBounds) (words : List NeMoWordResult) : NeMoSegmentResult where
  start := roundMs (coveringBounds b words).1
  stop := roundMs (coveringBounds b words).2
  text := b.text
  words := words
  confidence := meanConfidence words

/-- One segment with all the words. -/
def wholeSegment (fullText : Text) (confidence : Option Rat) :
    List NeMoWordResult → List NeMoSegmentResult
  | [] => []
  | first :: rest => [{
      start := first.start
      stop := (rest.getLastD first).stop
      text := strip fullText
      words := first :: rest
      confidence := confidence }]

end Segments

section Parse

/-- A hypothesis with a dictionary of stamps. -/
def parseDict (hypothesis : Hypothesis) (stamps : StampDict) (fullText : Text) :
    List NeMoSegmentResult × List NeMoWordResult :=
  let allWords := wordResults hypothesis (stamps.word.getD [])
  let bounds := segBounds (stamps.segment.getD [])
  if bounds = [] then (wholeSegment fullText (meanConfidence allWords) allWords, allWords)
  else (List.zipWith segmentOf bounds (assigned bounds allWords), allWords)

/-- Frames of a hundredth of a second, the last of which takes a tenth. -/
def parseFrames (timesteps : List Int) (fullText : Text) :
    List NeMoSegmentResult × List NeMoWordResult :=
  let allWords := ((splitWords fullText).zip timesteps).zipIdx.map fun p =>
    let wordStart : Rat := (p.1.2 : Rat) * (1 / 100)
    let wordStop := ((timesteps[p.2 + 1]?).map fun next : Int => (next : Rat) * (1 / 100)).getD
      (wordStart + 1 / 10)
    { word := p.1.1, start := roundMs wordStart, stop := roundMs wordStop }
  (wholeSegment fullText none allWords, allWords)

def parseHypothesis (hypothesis : Hypothesis) (fullText : Text) :
    List NeMoSegmentResult × List NeMoWordResult :=
  match hypothesis.tsDict? with
  | some stamps => parseDict hypothesis stamps fullText
  | none =>
    match hypothesis.timestep with
    | some (.frames timesteps) => parseFrames timesteps fullText
    | _ =>
      (if strip fullText = [] then [] else [⟨0, 0, strip fullText, [], none⟩], [])

end Parse

section Targets

theorem idxOf_range {n i : Nat} (h : i < n) : (List.range n).idxOf i = i := by
  have hlt : i < (List.range n).length := by simpa using h
  simpa using List.Nodup.idxOf_getElem List.nodup_range i hlt

variable {bounds : List SegBounds} {m m' : Rat}

theorem SegBounds.distance_of_lt {b : SegBounds} (hproper : b.start ≤ b.stop)
    (h : m < b.start) : b.distance m = b.start - m := by
  rw [distance, abs_sub_comm m, abs_sub_comm m, abs_of_nonneg (by linarith),
    abs_of_nonneg (by linarith)]
  exact min_eq_left (by linarith)

theorem SegBounds.distance_of_gt {b : SegBounds} (hproper : b.start ≤ b.stop)
    (h : b.stop < m) : b.distance m = m - b.stop := by
  rw [distance, abs_of_nonneg (by linarith), abs_of_nonneg (by linarith)]
  exact min_eq_right (by linarith)

theorem SegBounds.lt_or_gt {b : SegBounds} (h : ¬ b.Contains m) : m < b.start ∨ b.stop < m := by
  rw [Contains, not_and_or, not_le, not_le] at h
  exact h

/-- The segment of a time contains it and no earlier one does, or none contains it, none is
nearer and the earlier ones are farther. -/
theorem target_spec (hne : bounds ≠ []) : ∃ b, bounds[target bounds m]? = some b ∧
    ((b.Contains m ∧ ∀ i < target bounds m, ∀ b' ∈ bounds[i]?, ¬ b'.Contains m) ∨
      ((∀ b' ∈ bounds, ¬ b'.Contains m) ∧
        (∀ b' ∈ bounds, b.distance m ≤ b'.distance m) ∧
        ∀ i < target bounds m, ∀ b' ∈ bounds[i]?, b.distance m < b'.distance m)) := by
  cases hfind : bounds.findIdx? fun b => b.Contains m with
  | some k =>
      have htarget : target bounds m = k := by simp [target, hfind]
      obtain ⟨hk, hcontains, hfirst⟩ := List.findIdx?_eq_some_iff_getElem.mp hfind
      rw [htarget]
      refine ⟨bounds[k], List.getElem?_eq_getElem hk, Or.inl ⟨by simpa using hcontains, ?_⟩⟩
      intro i hi b' hb'
      obtain ⟨hlt, rfl⟩ := List.getElem?_eq_some_iff.mp hb'
      simpa using hfirst i hi
  | none =>
      have hnone : ∀ b ∈ bounds, ¬ b.Contains m := by
        simpa using List.findIdx?_eq_none_iff.mp hfind
      have hrange : (List.range bounds.length).argmin (distanceAt bounds m) ≠ none :=
        mt List.argmin_eq_none.mp (by simpa using hne)
      obtain ⟨k, hk⟩ := Option.ne_none_iff_exists'.mp hrange
      have htarget : target bounds m = k := by simp [target, hfind, hk]
      obtain ⟨hmem, hleast, hfirst⟩ := List.mem_argmin_iff.mp hk
      have hlt := List.mem_range.mp hmem
      have hat : ∀ i b', bounds[i]? = some b' → distanceAt bounds m i = b'.distance m :=
        fun i b' hb' => by simp [distanceAt, hb']
      have hget : bounds[k]? = some bounds[k] := List.getElem?_eq_getElem hlt
      rw [htarget]
      refine ⟨bounds[k], hget, Or.inr ⟨hnone, fun b' hb' => ?_, fun i hi b' hb' => ?_⟩⟩
      · obtain ⟨i, hi, hb'⟩ := List.getElem_of_mem hb'
        have hle := hleast i (List.mem_range.mpr hi)
        rwa [hat k _ hget, hat i b' (List.getElem?_eq_some_iff.mpr ⟨hi, hb'⟩)] at hle
      · by_contra hge
        have hi' : i < bounds.length := hi.trans hlt
        have hidx := hfirst i (List.mem_range.mpr hi') (by
          rw [hat k _ hget, hat i b' hb']
          exact not_lt.mp hge)
        rw [idxOf_range hlt, idxOf_range hi'] at hidx
        omega

/-- Where the segments are listed by their starts a later time has no earlier segment. -/
theorem target_mono (hproper : ∀ b ∈ bounds, b.start ≤ b.stop)
    (hsorted : bounds.Pairwise fun b b' => b.start ≤ b'.start) (hle : m ≤ m') :
    target bounds m ≤ target bounds m' := by
  by_cases hnil : bounds = []
  · subst hnil
    exact le_rfl
  · by_contra hgt
    have hlt := not_le.mp hgt
    obtain ⟨b, hb, hspec⟩ := target_spec (m := m) hnil
    obtain ⟨b', hb', hspec'⟩ := target_spec (m := m') hnil
    obtain ⟨hi, hbi⟩ := List.getElem?_eq_some_iff.mp hb
    obtain ⟨hi', hbi'⟩ := List.getElem?_eq_some_iff.mp hb'
    have hmem := List.mem_of_getElem? hb
    have hmem' := List.mem_of_getElem? hb'
    have hstart : b'.start ≤ b.start := by
      rw [← hbi, ← hbi']
      exact List.pairwise_iff_getElem.mp hsorted _ _ hi' hi hlt
    have hlen := hproper b hmem
    have hlen' := hproper b' hmem'
    have hnot : ¬ b'.Contains m := by
      rcases hspec with ⟨-, hearlier⟩ | ⟨hnone, -, -⟩
      · exact hearlier _ hlt b' hb'
      · exact hnone b' hmem'
    rcases SegBounds.lt_or_gt hnot with hbefore | hafter
    -- both begin after the time, the earlier one no later
    · rcases hspec with ⟨hcontains, -⟩ | ⟨-, -, hfarther⟩
      · exact absurd hcontains.1 (by linarith)
      · have hfar := hfarther _ hlt b' hb'
        rw [SegBounds.distance_of_lt hlen (by linarith),
          SegBounds.distance_of_lt hlen' hbefore] at hfar
        linarith
    -- the earlier one has ended before both times
    · rcases hspec' with ⟨hcontains', -⟩ | ⟨hnone', hnearest', -⟩
      · exact absurd hcontains'.2 (by linarith)
      · have hnear := hnearest' b hmem
        rw [SegBounds.distance_of_gt hlen' (by linarith : b'.stop < m')] at hnear
        rcases SegBounds.lt_or_gt (hnone' b hmem) with hlater | hended
        · rw [SegBounds.distance_of_lt hlen hlater] at hnear
          rcases hspec with ⟨hcontains, -⟩ | ⟨-, -, hfarther⟩
          · exact absurd hcontains.1 (by linarith)
          · have hfar := hfarther _ hlt b' hb'
            rw [SegBounds.distance_of_lt hlen (by linarith),
              SegBounds.distance_of_gt hlen' hafter] at hfar
            linarith
        · rw [SegBounds.distance_of_gt hlen hended] at hnear
          rcases hspec with ⟨hcontains, -⟩ | ⟨hnone, -, hfarther⟩
          · exact absurd hcontains.2 (by linarith)
          · have hfar := hfarther _ hlt b' hb'
            rcases SegBounds.lt_or_gt (hnone b hmem) with hlow | hhigh
            · linarith
            · rw [SegBounds.distance_of_gt hlen hhigh,
                SegBounds.distance_of_gt hlen' hafter] at hfar
              linarith

end Targets

section Parsed

variable {hypothesis : Hypothesis} {stamps : StampDict} {fullText : Text}
  {bounds : List SegBounds} {words : List NeMoWordResult}

theorem target_lt (hne : bounds ≠ []) (m : Rat) : target bounds m < bounds.length := by
  obtain ⟨b, hb, -⟩ := target_spec (m := m) hne
  exact (List.getElem?_eq_some_iff.mp hb).1

/-- The words of a hypothesis have rounded times. -/
theorem roundMs_of_mem_wordResults {stamps : List WordStamp} {w : NeMoWordResult}
    (h : w ∈ wordResults hypothesis stamps) :
    roundMs w.start = w.start ∧ roundMs w.stop = w.stop := by
  obtain ⟨p, -, rfl⟩ := List.mem_map.mp h
  exact ⟨roundMs_roundMs _, roundMs_roundMs _⟩

theorem map_word_wordResults (stamps : List WordStamp) :
    (wordResults hypothesis stamps).map (·.word) = stamps.map fun stamp => stamp.word.getD [] := by
  have hfst : stamps.zipIdx.map (fun p => p.1.word.getD []) =
      (stamps.zipIdx.map Prod.fst).map fun stamp => stamp.word.getD [] := by
    rw [List.map_map]
    rfl
  rw [wordResults, List.map_map]
  calc stamps.zipIdx.map _
      = stamps.zipIdx.map fun p => p.1.word.getD [] := rfl
    _ = stamps.map fun stamp => stamp.word.getD [] := by
        rw [hfst, List.zipIdx_map_fst]

/-- A segment encloses its words. -/
theorem segmentOf_encloses {b : SegBounds} {w : NeMoWordResult} (hw : w ∈ words)
    (hstart : roundMs w.start = w.start) (hstop : roundMs w.stop = w.stop) :
    (segmentOf b words).start ≤ w.start ∧ w.stop ≤ (segmentOf b words).stop := by
  obtain ⟨first, hfirst, hlow⟩ := exists_min?_le (List.mem_map_of_mem (f := (·.start)) hw)
  obtain ⟨last, hlast, hhigh⟩ := exists_le_max? (List.mem_map_of_mem (f := (·.stop)) hw)
  constructor
  · calc (segmentOf b words).start
        = roundMs (min b.start first) := by
          rw [segmentOf, coveringBounds, hfirst, hlast]
      _ ≤ roundMs w.start := roundMs_mono ((min_le_right _ _).trans hlow)
      _ = w.start := hstart
  · calc w.stop = roundMs w.stop := hstop.symm
      _ ≤ roundMs (max last (min b.start first)) :=
          roundMs_mono (hhigh.trans (le_max_left _ _))
      _ = (segmentOf b words).stop := by
          rw [segmentOf, coveringBounds, hfirst, hlast]

/-- Proper segments, listed by their starts, and words whose midpoints never fall. -/
structure Listed (bounds : List SegBounds) (words : List NeMoWordResult) : Prop where
  proper : ∀ b ∈ bounds, b.start ≤ b.stop
  sorted : bounds.Pairwise fun b b' => b.start ≤ b'.start
  words : words.Pairwise fun w w' => midpoint w ≤ midpoint w'

theorem words_zipWith_segmentOf {groups : List (List NeMoWordResult)}
    (hlen : groups.length = bounds.length) :
    (List.zipWith segmentOf bounds groups).map (·.words) = groups := by
  induction bounds generalizing groups with
  | nil => exact (List.eq_nil_of_length_eq_zero hlen).symm
  | cons b bounds ih =>
      obtain ⟨group, groups, rfl⟩ := List.exists_cons_of_length_eq_add_one hlen
      rw [List.zipWith_cons_cons, List.map_cons, ih (Nat.succ.inj hlen)]
      rfl

theorem exists_segmentOf {groups : List (List NeMoWordResult)} {seg : NeMoSegmentResult}
    (h : seg ∈ List.zipWith segmentOf bounds groups) : ∃ b, segmentOf b seg.words = seg := by
  obtain ⟨i, hi, rfl⟩ := List.getElem_of_mem h
  rw [List.getElem_zipWith]
  exact ⟨_, rfl⟩

theorem parseHypothesis_eq (hdict : hypothesis.tsDict? = some stamps)
    (hsegments : stamps.segment.getD [] ≠ []) :
    let words := wordResults hypothesis (stamps.word.getD [])
    let bounds := segBounds (stamps.segment.getD [])
    parseHypothesis hypothesis fullText =
      (List.zipWith segmentOf bounds (assigned bounds words), words) := by
  intro words bounds
  have hne : bounds ≠ [] := by simpa [bounds, segBounds] using hsegments
  have hparse : parseHypothesis hypothesis fullText = parseDict hypothesis stamps fullText := by
    simp only [parseHypothesis, hdict]
  rw [hparse, parseDict, if_neg hne]

/-- Each word goes to one segment, the words of a segment keep their order and are enclosed by
it, and all words keep their order if the stamps are listed in step. -/
theorem parseHypothesis_words (hdict : hypothesis.tsDict? = some stamps)
    (hsegments : stamps.segment.getD [] ≠ []) :
    let parsed := parseHypothesis hypothesis fullText
    let bounds := segBounds (stamps.segment.getD [])
    parsed.2.map (·.word) = (stamps.word.getD []).map (fun stamp => stamp.word.getD []) ∧
      parsed.1.map (·.words) =
        (List.range bounds.length).map (bucket (fun w => target bounds (midpoint w)) parsed.2) ∧
      (parsed.1.flatMap (·.words)).Perm parsed.2 ∧
      (Listed bounds parsed.2 → parsed.1.flatMap (·.words) = parsed.2) ∧
      ∀ seg ∈ parsed.1, ∀ w ∈ seg.words, seg.start ≤ w.start ∧ w.stop ≤ seg.stop := by
  intro parsed bounds
  have hne : bounds ≠ [] := by simpa [bounds, segBounds] using hsegments
  obtain ⟨words, hwords⟩ : ∃ words, wordResults hypothesis (stamps.word.getD []) = words :=
    ⟨_, rfl⟩
  have hparsed : parsed = (List.zipWith segmentOf bounds (assigned bounds words), words) :=
    hwords ▸ parseHypothesis_eq hdict hsegments
  have hgroups : (List.zipWith segmentOf bounds (assigned bounds words)).map (·.words) =
      assigned bounds words :=
    words_zipWith_segmentOf length_deal
  have hlt : ∀ w ∈ words, target bounds (midpoint w) < bounds.length :=
    fun w _ => target_lt hne _
  have hperm : (assigned bounds words).flatten.Perm words := deal_flatten_perm hlt
  rw [hparsed]
  refine ⟨?_, ?_, ?_, fun hlisted => ?_, ?_⟩
  · rw [← hwords, map_word_wordResults]
  · rw [hgroups, assigned, deal_eq_map]
  · rwa [List.flatMap, hgroups]
  · rw [List.flatMap, hgroups]
    exact deal_flatten_eq hlt
      (hlisted.words.imp fun hle => target_mono hlisted.proper hlisted.sorted hle)
  · intro seg hseg w hw
    have hgroup : seg.words ∈ assigned bounds words := hgroups ▸ List.mem_map_of_mem hseg
    have hmem : w ∈ words := hperm.mem_iff.mp (List.mem_flatten.mpr ⟨seg.words, hgroup, hw⟩)
    obtain ⟨hstart, hstop⟩ := roundMs_of_mem_wordResults (hwords ▸ hmem)
    obtain ⟨b, hb⟩ := exists_segmentOf hseg
    have hencloses := segmentOf_encloses (b := b) hw hstart hstop
    rwa [hb] at hencloses

/-- Two segments with a word in each and one in the gap between them. -/
def gapHypothesis : Hypothesis where
  timestamp := some (.dict {
    word := some [⟨some ['a'], some 0, some 1⟩, ⟨some ['b'], some 2, some 3⟩,
      ⟨some ['c'], some 5, some 6⟩]
    segment := some [⟨some ['a'], some 0, some 1⟩, ⟨some ['c'], some 5, some 6⟩] })

theorem gap_words : (parseHypothesis gapHypothesis []).1.flatMap (·.words) =
    (parseHypothesis gapHypothesis []).2 :=
  (parseHypothesis_words rfl (by decide)).2.2.2.1
    ⟨by decide +kernel, by decide +kernel, by decide +kernel⟩

/-- The same segments, listed in the other order. -/
def swappedHypothesis : Hypothesis where
  timestamp := some (.dict {
    word := some [⟨some ['a'], some 0, some 1⟩, ⟨some ['c'], some 5, some 6⟩]
    segment := some [⟨some ['c'], some 5, some 6⟩, ⟨some ['a'], some 0, some 1⟩] })

theorem swapped_words :
    (parseHypothesis swappedHypothesis []).2.map (·.word) = [['a'], ['c']] ∧
      ((parseHypothesis swappedHypothesis []).1.flatMap (·.words)).map (·.word) =
        [['c'], ['a']] := by
  decide +kernel

end Parsed

end Dalston.Engines.HypothesisParser
