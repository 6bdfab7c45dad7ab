import Dalston.Engines.ForcedAlignment
import Dalston.Foundation.Results

/-!
# The times of an alignment

An alignment has one result for each segment, with the words and characters inside the segment
and in order, exactly if every segment with a path has two frames or more and stays inside when
the frame after its last one is scaled to seconds.
-/

namespace Dalston.Engines.ForcedAlignment

open Foundation Model TextWrap CtcAlignment

section Bounds

variable {charSegments : List CharSegment} {ratio t1 t2 : Rat} {frames : Nat}
  {l : List CharTiming}

theorem scaleTimes_mono (hratio : 0 ≤ ratio) {m n : Nat} (h : m ≤ n) :
    roundMs (m * ratio + t1) ≤ roundMs (n * ratio + t1) := by
  have hcast : (m : Rat) ≤ n := by exact_mod_cast h
  exact roundMs_mono (by linarith [mul_le_mul_of_nonneg_right hcast hratio])

/-- The last character ends with the last frame. -/
theorem exists_stop_eq (htiles : Tiles CharSegment.start CharSegment.stop 0 frames charSegments)
    (hpos : 0 < frames) : ∃ cs ∈ charSegments, cs.stop = frames := by
  obtain ⟨cs, hcs, -, hlast⟩ := htiles.covers (Nat.zero_le (frames - 1)) (by omega)
  obtain ⟨-, -, hstop⟩ := htiles.within hcs
  exact ⟨cs, hcs, by omega⟩

theorem exists_start_eq (htiles : Tiles CharSegment.start CharSegment.stop 0 frames charSegments)
    (hpos : 0 < frames) : ∃ cs ∈ charSegments, cs.start = 0 := by
  obtain ⟨cs, hcs, hfirst, -⟩ := htiles.covers le_rfl hpos
  exact ⟨cs, hcs, Nat.le_zero.mp hfirst⟩

theorem TimedBy.mem_times {skipped wordIdx : Nat}
    (h : TimedBy charSegments ratio t1 skipped wordIdx l) {t : CharTimes} :
    (∃ c ∈ l, t ∈ c.times) ↔ ∃ cs ∈ charSegments.drop skipped, scaleTimes ratio t1 cs = t := by
  rw [← List.mem_map, ← h.times, List.mem_filterMap]
  rfl

/-- The characters are inside if the frame after the last one is scaled to the end at most. -/
theorem TimedBy.charsWithin_iff (h : TimedBy charSegments ratio t1 0 0 l)
    (htiles : Tiles CharSegment.start CharSegment.stop 0 frames charSegments)
    (hframes : 2 ≤ frames) (hratio : ratio = (t2 - t1) / (frames - 1 : Nat)) :
    CharsWithin t1 t2 l ↔ t1 ≤ t2 ∧ t1 ≤ roundMs t1 ∧ roundMs (frames * ratio + t1) ≤ t2 := by
  constructor
  · intro hwithin
    obtain ⟨cs, hcs, hstart⟩ := exists_start_eq htiles (by omega)
    obtain ⟨cs', hcs', hstop⟩ := exists_stop_eq htiles (by omega)
    obtain ⟨c, hc, ht⟩ := h.mem_times.mpr ⟨cs, hcs, rfl⟩
    obtain ⟨c', hc', ht'⟩ := h.mem_times.mpr ⟨cs', hcs', rfl⟩
    obtain ⟨hfirst, hlen, hlast⟩ := hwithin.bounds c hc _ ht
    obtain ⟨-, -, hend⟩ := hwithin.bounds c' hc' _ ht'
    simp only [scaleTimes, hstart, hstop, Nat.cast_zero, zero_mul, zero_add] at hfirst hend
    exact ⟨hfirst.trans (by simpa [scaleTimes, hstart] using hlen.trans hlast), hfirst, hend⟩
  · rintro ⟨hle, hfirst, hlast⟩
    have hpos : (0 : Rat) < (frames - 1 : Nat) := by exact_mod_cast (by omega : 0 < frames - 1)
    have hnonneg : 0 ≤ ratio := hratio ▸ div_nonneg (by linarith) hpos.le
    refine ⟨fun c hc t ht => ?_, ?_⟩
    · obtain ⟨cs, hcs, rfl⟩ := h.mem_times.mp ⟨c, hc, ht⟩
      obtain ⟨-, hlen, hstop⟩ := htiles.within hcs
      have hstart : roundMs t1 ≤ roundMs (cs.start * ratio + t1) := by
        have hscaled : roundMs ((0 : Nat) * ratio + t1) ≤ roundMs (cs.start * ratio + t1) :=
          scaleTimes_mono hnonneg (Nat.zero_le cs.start)
        simpa using hscaled
      exact ⟨hfirst.trans hstart, scaleTimes_mono hnonneg hlen.le,
        (scaleTimes_mono hnonneg hstop).trans hlast⟩
    · have htimes : (l.filterMap (·.times)).Pairwise fun t u =>
          t.start ≤ u.start ∧ t.stop ≤ u.stop := by
        rw [h.times, List.drop_zero, List.pairwise_map]
        refine (htiles.ordered.and (List.pairwise_of_forall_mem_list fun cs hcs cs' hcs' =>
          And.intro (htiles.within hcs) (htiles.within hcs'))).imp ?_
        rintro cs cs' ⟨hbefore, ⟨-, hlen, -⟩, ⟨-, hlen', -⟩⟩
        exact ⟨scaleTimes_mono hnonneg (hlen.le.trans hbefore),
          scaleTimes_mono hnonneg (hbefore.trans hlen'.le)⟩
      exact List.pairwise_filterMap.mp htimes

end Bounds

section Segments

variable {model : AlignModel} {audio : List Rat} {seg : InputSegment}

/-- The search of a path ends, and a path goes through every frame and every character. -/
theorem findPath_returns : ∃ found, Returns (findPath model audio seg) found ∧
    ∀ path ∈ found, Aligned (emissionOf model audio seg)
      (tokensOf model (preprocessSegment model seg.text).textClean) path :=
  backtrack_returns

/-- The characters on a path, unless the audio has a single frame. -/
theorem timingsOn_eq {path : List Point} (halignable :
      (preprocessSegment model seg.text).alignable = true)
    (h : Aligned (emissionOf model audio seg)
      (tokensOf model (preprocessSegment model seg.text).textClean) path) :
    ((emissionOf model audio seg).frames = 1 →
        timingsOn model audio seg path = .error .zeroDivision) ∧
      (2 ≤ (emissionOf model audio seg).frames → ∃ charSegments l,
        timingsOn model audio seg path = .ok l ∧
        Tiles CharSegment.start CharSegment.stop 0 (emissionOf model audio seg).frames
          charSegments ∧
        TimedBy charSegments ((seg.stop - seg.start) /
          ((emissionOf model audio seg).frames - 1 : Nat)) seg.start 0 0 l) := by
  have hcount : (preprocessSegment model seg.text).textClean.length =
      seg.text.length - numTrailing seg.text - numLeading seg.text := length_textClean
  have hsome : (preprocessSegment model seg.text).cleanChars ≠ [] := by
    intro hnil
    simp [SegmentData.alignable, hnil] at halignable
  have hpos := List.length_pos_of_ne_nil hsome
  rw [length_cleanChars] at hpos
  have hlen : (preprocessSegment model seg.text).textClean.length =
      (tokensOf model (preprocessSegment model seg.text).textClean).length := by
    rw [tokensOf, List.length_map]
  have hne : tokensOf model (preprocessSegment model seg.text).textClean ≠ [] :=
    List.ne_nil_of_length_pos (by omega)
  obtain ⟨charSegments, hmerge, hlabels, htiles, -⟩ := h.mergeRepeats hlen hne
  have hsegments : charSegments.length =
      seg.text.length - numTrailing seg.text - numLeading seg.text := by
    rw [← hcount, ← hlabels, List.length_map]
  constructor
  · intro hone
    simp [timingsOn, hmerge, frameRatio, hone, bind, Except.bind]
  · intro htwo
    have hframes : (emissionOf model audio seg).frames - 1 ≠ 0 := by omega
    have hinked : ∀ j c, seg.text[j]? = some c → isSpace c = false →
        numLeading seg.text ≤ 0 + j ∧ 0 + j < numLeading seg.text + charSegments.length := by
      intro j c hc hspace
      have hmem : j ∈ (preprocessSegment model seg.text).cleanCharIndices :=
        mem_cleanCharIndices hc hspace
      rw [cleanCharIndices_eq, List.mem_range'_1] at hmem
      omega
    obtain ⟨l, hl, htimed⟩ : ∃ l, assignCharTimestamps
        (List.range' (numLeading seg.text) charSegments.length) charSegments
          ((seg.stop - seg.start) / ((emissionOf model audio seg).frames - 1 : Nat)) seg.start
          model.spaceless seg.text 0 0 = .ok l ∧
        TimedBy charSegments ((seg.stop - seg.start) /
          ((emissionOf model audio seg).frames - 1 : Nat)) seg.start
          (0 - numLeading seg.text) 0 l :=
      assignCharTimestamps_timedBy (by omega) hinked
    refine ⟨charSegments, l, ?_, htiles, by simpa using htimed⟩
    simp only [timingsOn, hmerge, frameRatio, hframes, if_false, bind, Except.bind,
      cleanCharIndices_eq, ← hsegments]
    exact hl

/-- The segment is not kept as it is: it has a path. -/
def HasPath (model : AlignModel) (audio : List Rat) (seg : InputSegment) : Prop :=
  (preprocessSegment model seg.text).alignable = true ∧ seg.start < maxDuration audio ∧
    ∃ path, Returns (findPath model audio seg) (some path)

/-- There are two frames or more, and the times from the first frame to the one after the last
stay in the segment when they are rounded. -/
structure Fits (model : AlignModel) (audio : List Rat) (seg : InputSegment) : Prop where
  frames : 2 ≤ (emissionOf model audio seg).frames
  ordered : seg.start ≤ seg.stop
  first : seg.start ≤ roundMs seg.start
  last : roundMs ((emissionOf model audio seg).frames * ((seg.stop - seg.start) /
    ((emissionOf model audio seg).frames - 1 : Nat)) + seg.start) ≤ seg.stop

/-- The result has the segment's text, and its words and characters are in order and inside
the segment. -/
structure WithinSegment (model : AlignModel) (audio : List Rat) (seg : InputSegment)
    (aligned : AlignedSegment) : Prop where
  text : aligned.text = seg.text
  words : WordsWithin seg.start seg.stop aligned.words
  chars : ∀ l, Returns (fun rounds => segmentTimings model audio rounds seg) (.ok (some l)) →
    CharsWithin seg.start seg.stop l

/-- A segment that is kept has no words. -/
theorem kept_within (h : Returns (fun rounds => segmentTimings model audio rounds seg)
    (.ok none)) : ∃ aligned, Returns (fun rounds => alignSegment model audio rounds seg)
      (.ok aligned) ∧ WithinSegment model audio seg aligned := by
  refine ⟨finishSegment seg none, h.map _, rfl, ⟨by simp [finishSegment], ?_⟩, fun l hl => ?_⟩
  · exact List.Pairwise.nil
  · cases h.unique hl

/-- On a path the words and characters are inside exactly if the segment fits. -/
theorem alignSegment_of_path {path : List Point} (hpath : HasPath model audio seg)
    (haligned : Aligned (emissionOf model audio seg)
      (tokensOf model (preprocessSegment model seg.text).textClean) path)
    (htimings : Returns (fun rounds => segmentTimings model audio rounds seg)
      (timingsFor model audio seg (some path))) :
    ∃ outcome, Returns (fun rounds => alignSegment model audio rounds seg) outcome ∧
      ((∃ aligned, outcome = .ok aligned ∧ WithinSegment model audio seg aligned) ↔
        Fits model audio seg) := by
  obtain ⟨hone, htwo⟩ := timingsOn_eq hpath.1 haligned
  rcases Nat.lt_or_ge 1 (emissionOf model audio seg).frames with hframes | hframes
  · obtain ⟨charSegments, l, hl, htiles, htimed⟩ := htwo hframes
    have hiff := htimed.charsWithin_iff htiles hframes rfl
    rw [timingsFor, hl] at htimings
    refine ⟨_, htimings.map _, ?_, fun hfits => ?_⟩
    · rintro ⟨aligned, -, hwithin⟩
      obtain ⟨hle, hfirst, hlast⟩ := hiff.mp (hwithin.chars l htimings)
      exact ⟨hframes, hle, hfirst, hlast⟩
    · have hchars := hiff.mpr ⟨hfits.ordered, hfits.first, hfits.last⟩
      have hwords := hchars.words htimed.numbers htimed.inked
      have hkeep : interpolateWordTimestamps (aggregateWords l) = aggregateWords l :=
        interpolateWordTimestamps_eq_self fun w hw => by
          obtain ⟨s, hs, e, he, -⟩ := hwords.bounds w hw
          exact ⟨Option.isSome_of_mem hs, Option.isSome_of_mem he⟩
      refine ⟨finishSegment seg (some l), rfl, rfl, ?_, fun l' hl' => ?_⟩
      · rw [finishSegment, buildSegment, hkeep]
        exact hwords
      · cases htimings.unique hl'
        exact hchars
  · have hsingle : (emissionOf model audio seg).frames = 1 :=
      Nat.le_antisymm hframes (emissionOf model audio seg).frames_pos
    rw [timingsFor, hone hsingle] at htimings
    refine ⟨_, htimings.map _, iff_of_false ?_ fun hfits => ?_⟩
    · rintro ⟨aligned, heq, -⟩
      cases heq
    · have htwo := hfits.frames
      omega

/-- What becomes of a segment, and when its words and characters are inside. -/
theorem alignSegment_returns (model : AlignModel) (audio : List Rat) (seg : InputSegment) :
    ∃ outcome, Returns (fun rounds => alignSegment model audio rounds seg) outcome ∧
      ((∃ aligned, outcome = .ok aligned ∧ WithinSegment model audio seg aligned) ↔
        (HasPath model audio seg → Fits model audio seg)) := by
  by_cases hkept : (preprocessSegment model seg.text).alignable = false ∨
      maxDuration audio ≤ seg.start
  · have hreturns : Returns (fun rounds => segmentTimings model audio rounds seg)
        (.ok none) := ⟨0, fun rounds _ => if_pos hkept⟩
    obtain ⟨aligned, haligned, hwithin⟩ := kept_within hreturns
    refine ⟨_, haligned, iff_of_true ⟨aligned, rfl, hwithin⟩ fun hpath => ?_⟩
    rcases hkept with hkept | hkept
    · rw [hpath.1] at hkept
      cases hkept
    · exact absurd hpath.2.1 (not_lt.mpr hkept)
  · obtain ⟨halignable, hstart⟩ := not_or.mp hkept
    obtain ⟨found, hfound, haligned⟩ : ∃ found, Returns (findPath model audio seg) found ∧
        ∀ path ∈ found, Aligned (emissionOf model audio seg)
          (tokensOf model (preprocessSegment model seg.text).textClean) path :=
      findPath_returns
    have htimings : Returns (fun rounds => segmentTimings model audio rounds seg)
        (timingsFor model audio seg found) :=
      (hfound.map (timingsFor model audio seg)).congr fun rounds => if_neg hkept
    cases found with
    | none =>
        obtain ⟨aligned, haligned, hwithin⟩ := kept_within htimings
        refine ⟨_, haligned, iff_of_true ⟨aligned, rfl, hwithin⟩ fun hpath => ?_⟩
        obtain ⟨-, -, path, hpath⟩ := hpath
        cases hpath.unique hfound
    | some path =>
        have hpath : HasPath model audio seg :=
          ⟨by simpa using halignable, not_le.mp hstart, path, hfound⟩
        obtain ⟨outcome, houtcome, hiff⟩ := alignSegment_of_path hpath (haligned path rfl) htimings
        exact ⟨outcome, houtcome, hiff.trans (imp_iff_right hpath).symm⟩

end Segments

section Transcript

variable {model : AlignModel} {audio : List Rat}

/-- The alignment ends with one result for each segment, in order, whose words and characters
are in order and inside the segment. -/
def AlignsWithin (model : AlignModel) (audio : List Rat) (transcript : List InputSegment) :
    Prop :=
  ∃ result, Returns (fun rounds => align model audio rounds transcript) (.ok result) ∧
    List.Forall₂ (WithinSegment model audio) transcript result.segments

/-- The alignment ends with what becomes of its segments. -/
theorem align_returns (model : AlignModel) (audio : List Rat) (transcript : List InputSegment) :
    ∃ outcome : InputSegment → Except AlignError AlignedSegment,
      Returns (fun rounds => align model audio rounds transcript)
        (do let segments ← transcript.mapM outcome
            return ⟨segments, segments.flatMap (·.words)⟩) ∧
      ∀ seg, (∃ aligned, outcome seg = .ok aligned ∧ WithinSegment model audio seg aligned) ↔
        (HasPath model audio seg → Fits model audio seg) := by
  choose outcome houtcome hiff using alignSegment_returns model audio
  have hall : (transcript.map outcome).mapM id = transcript.mapM outcome := List.mapM_map
  have halign : Returns (fun rounds => align model audio rounds transcript)
      (do let segments ← (transcript.map outcome).mapM id
          return ⟨segments, segments.flatMap (·.words)⟩) :=
    (returns_mapM fun seg _ => houtcome seg).map _
  rw [hall] at halign
  exact ⟨outcome, halign, hiff⟩

theorem AlignsWithin.fits {transcript : List InputSegment}
    (h : AlignsWithin model audio transcript) {seg : InputSegment} (hseg : seg ∈ transcript)
    (hpath : HasPath model audio seg) : Fits model audio seg := by
  obtain ⟨outcome, halign, hiff⟩ := align_returns model audio transcript
  obtain ⟨result, hresult, hwithin⟩ := h
  have heq := halign.unique hresult
  cases hsegments : transcript.mapM outcome with
  | error e =>
      rw [hsegments] at heq
      cases heq
  | ok segments =>
      rw [hsegments] at heq
      cases heq
      exact (hiff seg).mp (exists_mapM_iff.mp ⟨segments, hsegments, hwithin⟩ seg hseg) hpath

/-- The words and characters of a transcript are in order and inside their segments exactly if
each segment with a path fits. -/
theorem alignsWithin_iff (model : AlignModel) (audio : List Rat)
    (transcript : List InputSegment) : AlignsWithin model audio transcript ↔
      ∀ seg ∈ transcript, HasPath model audio seg → Fits model audio seg := by
  constructor
  · intro h seg hseg hpath
    exact h.fits hseg hpath
  · intro hfits
    obtain ⟨outcome, halign, hiff⟩ := align_returns model audio transcript
    obtain ⟨segments, hsegments, hwithin⟩ :=
      exists_mapM_iff.mpr fun seg hseg => (hiff seg).mpr (hfits seg hseg)
    rw [hsegments] at halign
    have hdone : Returns (fun rounds => align model audio rounds transcript)
        (.ok ⟨segments, segments.flatMap AlignedSegment.words⟩) := halign
    exact ⟨_, hdone, hwithin⟩

end Transcript

section Samples

/-- A model of one letter, with a frame for 320 samples after the first 400. -/
def letterModel : AlignModel where
  language := "en"
  dictionary := fun key => if key = ['a'] then some 1 else none
  lower := fun c => [c]
  forward := fun waveform _ =>
    { frames := (waveform.length - 400) / 320 + 1
      vocab := 2
      score := fun _ _ => .fin (-1)
      frames_pos := Nat.succ_pos _ }
  exp := fun _ => 1 / 3
  single := fun c _ => by simp [dictionaryKey, LANGUAGES_WITHOUT_SPACES]

/-- One second of audio. -/
def oneSecond : List Rat := List.replicate 16000 0

/-- A segment of no length raises, and the last character of a segment of one second ends a
frame after it. -/
theorem letter_outside : ¬ AlignsWithin letterModel oneSecond [⟨0, 0, ['a']⟩] ∧
    ¬ AlignsWithin letterModel oneSecond [⟨0, 1, ['a']⟩] := by
  have hlength : oneSecond.length = 16000 := List.length_replicate
  have hduration : (0 : Rat) < maxDuration oneSecond := by
    rw [maxDuration, hlength]
    norm_num [SAMPLE_RATE]
  have hforward : ∀ waveform length, (letterModel.forward waveform length).frames =
      (waveform.length - 400) / 320 + 1 := fun _ _ => rfl
  have halignable : (preprocessSegment letterModel ['a']).alignable = true := by decide
  have hsingle : (tokensOf letterModel
      (preprocessSegment letterModel ['a']).textClean).length = 1 := by decide
  have hfits : ∀ stop : Rat, AlignsWithin letterModel oneSecond [⟨0, stop, ['a']⟩] →
      Fits letterModel oneSecond ⟨0, stop, ['a']⟩ := fun stop h =>
    h.fits List.mem_cons_self ⟨halignable, hduration, backtrack_of_single hsingle⟩
  constructor
  · intro h
    have htwo := (hfits 0 h).frames
    have hwaveform : (waveformOf oneSecond ⟨0, 0, ['a']⟩).length = 0 := by
      rw [waveformOf, List.length_drop, List.length_take, hlength]
      decide +kernel
    have hframes : (emissionOf letterModel oneSecond ⟨0, 0, ['a']⟩).frames = 1 := by
      simp only [emissionOf, hwaveform, hforward, Nat.ofNat_pos, if_true, List.length_append,
        List.length_replicate]
    omega
  · intro h
    have hlast := (hfits 1 h).last
    have hwaveform : (waveformOf oneSecond ⟨0, 1, ['a']⟩).length = 16000 := by
      rw [waveformOf, List.length_drop, List.length_take, hlength]
      decide +kernel
    have hframes : (emissionOf letterModel oneSecond ⟨0, 1, ['a']⟩).frames = 49 := by
      rw [emissionOf, hwaveform, if_neg (by decide), hforward, hwaveform]
    rw [hframes] at hlast
    exact absurd hlast (by decide +kernel)

end Samples

end Dalston.Engines.ForcedAlignment
