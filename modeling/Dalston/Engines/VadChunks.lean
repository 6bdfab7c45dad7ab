import Dalston.Foundation.Rounds
import Dalston.Foundation.Spans
import Dalston.Model.Rounding

/-!
# Chunks at speech boundaries

Voice activity detection gives the speech segments of an audio. Segments longer than a cap
are split, consecutive segments are grouped as long as the group is no longer than the cap,
and each group is cut out of the audio as a chunk. A resume boundary drops the groups before
it and trims the group that straddles it.

## Implementation notes

Speech is detected in samples, and times are rationals. A group is the span from the start
of its first segment to the end of its last. A chunk keeps the end of its span, which the
source only uses to cut it. The loop that splits a segment may take a number of rounds.
-/

namespace Dalston.Engines

open Foundation Model

def SAMPLE_RATE : Rat := 16000

/-- An audio and the speech detected in it, in samples: segments in order and disjoint. -/
structure DetectedSpeech where
  totalSamples : Nat
  rawSegments : List (Nat × Nat)
  ordered : rawSegments.Pairwise fun p q => p.2 ≤ q.1

/-- The sample is in the audio and in one of the segments. -/
def DetectedSpeech.Holds (speech : DetectedSpeech) (n : Nat) : Prop :=
  n < speech.totalSamples ∧ ∃ seg ∈ speech.rawSegments, seg.1 ≤ n ∧ n < seg.2

/-- A chunk of the audio: the span it was cut from and its samples. -/
structure AudioChunk where
  offset : Rat
  stop : Rat
  startSample : Int
  endSample : Int
  deriving DecidableEq

def AudioChunk.duration (c : AudioChunk) : Rat := (c.endSample - c.startSample) / SAMPLE_RATE

/-- The sample is in the audio of the chunk. -/
def AudioChunk.Holds (c : AudioChunk) (n : Nat) : Prop := c.startSample ≤ n ∧ n < c.endSample

section Split

/-- The segments with a length, in seconds. -/
def speechSegments (speech : DetectedSpeech) : List (Rat × Rat) :=
  (speech.rawSegments.filter fun seg => seg.1 < seg.2).map fun seg =>
    ((seg.1 : Rat) / SAMPLE_RATE, (seg.2 : Rat) / SAMPLE_RATE)

/-- The loop that splits a segment, from a cursor to its end. -/
def forceSplit (cap stop : Rat) : Nat → Rat → Option (List (Rat × Rat))
  | 0, _ => none
  | rounds + 1, cursor =>
      if cursor < stop then
        let nextEnd := min (cursor + cap) stop
        (forceSplit cap stop rounds nextEnd).map ((cursor, nextEnd) :: ·)
      else some []

def capSegment (cap : Rat) (seg : Rat × Rat) (rounds : Nat) : Option (List (Rat × Rat)) :=
  if seg.2 - seg.1 ≤ cap then some [seg] else forceSplit cap seg.2 rounds seg.1

/-- The segments, those that are too long in pieces. -/
def cappedSegments (cap : Rat) (segments : List (Rat × Rat)) (rounds : Nat) :
    Option (List (Rat × Rat)) :=
  (segments.mapM fun seg => capSegment cap seg rounds).map List.flatten

def fitsGroup (cap : Rat) (group seg : Rat × Rat) : Bool := seg.2 - group.1 ≤ cap

def extendGroup (group seg : Rat × Rat) : Rat × Rat := (group.1, seg.2)

/-- `int(round(t * _SAMPLE_RATE))`. -/
def sampleAt (t : Rat) : Int := roundHalfEven (t * SAMPLE_RATE)

/-- The chunk of a group, unless it lies before the resume boundary or has no samples. -/
def cutGroup (totalSamples : Nat) (startOffset : Rat) (group : Rat × Rat) :
    Option AudioChunk :=
  if group.2 ≤ startOffset + 1 / 1000 then none
  else
    let start := if group.1 < startOffset then startOffset else group.1
    let startSample := max 0 (sampleAt start)
    let endSample := min (totalSamples : Int) (sampleAt group.2)
    if endSample ≤ startSample then none else some ⟨start, group.2, startSample, endSample⟩

/-- `VadChunker.split`. -/
def split (speech : DetectedSpeech) (cap startOffset : Rat) (rounds : Nat) :
    Option (List AudioChunk) :=
  (cappedSegments cap (speechSegments speech) rounds).map fun capped =>
    (coalesce (fitsGroup cap) extendGroup capped).filterMap
      (cutGroup speech.totalSamples startOffset)

end Split

section Samples

theorem sampleAt_mono {s t : Rat} (h : s ≤ t) : sampleAt s ≤ sampleAt t :=
  roundHalfEven_mono (mul_le_mul_of_nonneg_right h (by norm_num [SAMPLE_RATE]))

/-- The time of a sample is rounded to that sample. -/
@[simp] theorem sampleAt_natCast (n : Nat) : sampleAt ((n : Rat) / SAMPLE_RATE) = n := by
  have heq : (n : Rat) / SAMPLE_RATE * SAMPLE_RATE = ((n : Int) : Rat) := by
    rw [div_mul_cancel₀ _ (by norm_num [SAMPLE_RATE])]
    rfl
  rw [sampleAt, heq, roundHalfEven_intCast]

@[simp] theorem sampleAt_zero : sampleAt 0 = 0 := by simpa using sampleAt_natCast 0

theorem sampleAt_nonneg {t : Rat} (h : 0 ≤ t) : 0 ≤ sampleAt t :=
  sampleAt_zero ▸ sampleAt_mono h

/-- The samples before the sample of a time are before the time. -/
theorem time_lt_of_lt_sampleAt {n : Nat} {t : Rat} (h : (n : Int) < sampleAt t) :
    (n : Rat) / SAMPLE_RATE < t := by
  by_contra hle
  have hback := sampleAt_mono (not_lt.mp hle)
  rw [sampleAt_natCast] at hback
  exact absurd h (not_lt.mpr hback)

/-- Rounding both ends makes a span longer by one sample at most. -/
theorem sampleAt_sub_le (s t : Rat) :
    ((sampleAt t - sampleAt s : Int) : Rat) / SAMPLE_RATE ≤ t - s + 1 / SAMPLE_RATE := by
  have hs := abs_le.mp (abs_roundHalfEven_sub_le (s * SAMPLE_RATE))
  have ht := abs_le.mp (abs_roundHalfEven_sub_le (t * SAMPLE_RATE))
  have hrate : (0 : Rat) < SAMPLE_RATE := by norm_num [SAMPLE_RATE]
  rw [div_le_iff₀ hrate, add_mul, div_mul_cancel₀ _ hrate.ne']
  simp only [sampleAt, Int.cast_sub]
  linarith

/-- The time falls on a sample. -/
def Whole (t : Rat) : Prop := (sampleAt t : Rat) = t * SAMPLE_RATE

theorem whole_natCast (n : Nat) : Whole ((n : Rat) / SAMPLE_RATE) := by
  rw [Whole, sampleAt_natCast, div_mul_cancel₀ _ (by norm_num [SAMPLE_RATE])]
  rfl

theorem Whole.add {s t : Rat} (hs : Whole s) (ht : Whole t) : Whole (s + t) := by
  rw [Whole, sampleAt, add_mul, ← hs, ← ht, ← Int.cast_add, roundHalfEven_intCast]

/-- Between two samples nothing is rounded. -/
theorem Whole.sub_eq {s t : Rat} (hs : Whole s) (ht : Whole t) :
    ((sampleAt t - sampleAt s : Int) : Rat) / SAMPLE_RATE = t - s := by
  rw [Int.cast_sub, hs, ht, ← sub_mul, mul_div_cancel_right₀ _ (by norm_num [SAMPLE_RATE])]

end Samples

section Pieces

variable {cap start stop : Rat} {atSamples : Prop}

/-- Segments are cut at samples: the cap is a whole number of them, or cuts no segment. -/
def CutsAtSamples (cap : Rat) (segments : List (Rat × Rat)) : Prop :=
  Whole cap ∨ ∀ seg ∈ segments, seg.2 - seg.1 ≤ cap

/-- A piece is no longer than the cap, and falls on samples if the cuts do. -/
structure Piece (cap : Rat) (atSamples : Prop) (p : Rat × Rat) : Prop where
  length : p.2 - p.1 ≤ cap
  whole : atSamples → Whole p.1 ∧ Whole p.2

/-- A positive cap is enough for the loop to end, by induction on the pieces left. -/
theorem forceSplit_returns (hcap : 0 < cap) (pieces : Nat) (hstart : start ≤ stop)
    (hpieces : stop ≤ start + pieces * cap) (hcuts : atSamples → Whole cap)
    (hwhole : atSamples → Whole start) (hwhole' : Whole stop) :
    ∃ split, Returns (fun rounds => forceSplit cap stop rounds start) split ∧
      Tiles Prod.fst Prod.snd start stop split ∧ ∀ p ∈ split, Piece cap atSamples p := by
  rcases hstart.lt_or_eq with hlt | rfl
  · induction pieces generalizing start with
    | zero =>
        rw [Nat.cast_zero, zero_mul, add_zero] at hpieces
        exact absurd hlt (not_lt.mpr hpieces)
    | succ pieces ih =>
        have hnext : start < min (start + cap) stop := lt_min (by linarith) hlt
        have hwholeNext : atSamples → Whole (min (start + cap) stop) := fun hat =>
          min_rec' Whole ((hwhole hat).add (hcuts hat)) hwhole'
        have hfirst : Piece cap atSamples (start, min (start + cap) stop) :=
          ⟨by linarith [min_le_left (start + cap) stop], fun hat => ⟨hwhole hat, hwholeNext hat⟩⟩
        have hstep : ∀ rounds, forceSplit cap stop (rounds + 1) start =
            (forceSplit cap stop rounds (min (start + cap) stop)).map
              ((start, min (start + cap) stop) :: ·) := fun rounds => if_pos hlt
        rcases (min_le_right (start + cap) stop).lt_or_eq with hmore | hlast
        · have hleft : stop ≤ min (start + cap) stop + pieces * cap := by
            rw [min_eq_left (le_of_lt (by simpa using hmore))]
            push_cast at hpieces
            linarith
          obtain ⟨rest, hreturns, htiles, hlengths⟩ := ih hmore.le hleft hwholeNext hmore
          refine ⟨_, returns_succ.mp ((hreturns.map _).congr hstep), ⟨rfl, hnext, htiles⟩, ?_⟩
          exact List.forall_mem_cons.mpr ⟨hfirst, hlengths⟩
        · have hdone : Returns (fun rounds => forceSplit cap stop rounds (min (start + cap) stop))
              [] := by
            refine returns_succ.mp ((returns_const _).congr fun rounds => ?_)
            exact if_neg (by rw [hlast]; exact lt_irrefl _)
          refine ⟨_, returns_succ.mp ((hdone.map _).congr hstep), ⟨rfl, hnext, hlast⟩, ?_⟩
          exact List.forall_mem_cons.mpr ⟨hfirst, fun p hp => absurd hp List.not_mem_nil⟩
  · refine ⟨[], returns_succ.mp ((returns_const _).congr fun rounds => ?_), rfl, ?_⟩
    · exact if_neg (lt_irrefl _)
    · exact fun p hp => absurd hp List.not_mem_nil

/-- The pieces of a segment follow each other from its start to its end, none too long. -/
theorem capSegment_returns (atSamples : Prop) (hcap : 0 < cap) {seg : Rat × Rat}
    (hseg : seg.1 < seg.2)
    (hcuts : atSamples → Whole cap ∨ seg.2 - seg.1 ≤ cap) (hwhole : Whole seg.1 ∧ Whole seg.2) :
    ∃ pieces, Returns (capSegment cap seg) pieces ∧
      Tiles Prod.fst Prod.snd seg.1 seg.2 pieces ∧ ∀ p ∈ pieces, Piece cap atSamples p := by
  by_cases hfits : seg.2 - seg.1 ≤ cap
  · refine ⟨[seg], (returns_const _).congr fun rounds => if_pos hfits, ⟨rfl, hseg, rfl⟩, ?_⟩
    intro p hp
    obtain rfl := List.mem_singleton.mp hp
    exact ⟨hfits, fun _ => hwhole⟩
  · have hpieces : seg.2 ≤ seg.1 + (⌈(seg.2 - seg.1) / cap⌉₊ : Rat) * cap := by
      have hceil : (seg.2 - seg.1) / cap ≤ ⌈(seg.2 - seg.1) / cap⌉₊ := Nat.le_ceil _
      rw [div_le_iff₀ hcap] at hceil
      linarith
    obtain ⟨pieces, hreturns, hpieces⟩ :=
      forceSplit_returns hcap _ hseg.le hpieces (fun hat => (hcuts hat).resolve_right hfits)
        (fun _ => hwhole.1) hwhole.2
    exact ⟨pieces, hreturns.congr fun rounds => if_neg hfits, hpieces⟩

variable {segments capped : List (Rat × Rat)}

/-- Pieces in order and disjoint, none before the start of the audio or too long. -/
structure Capped (cap : Rat) (atSamples : Prop) (pieces : List (Rat × Rat)) : Prop where
  ordered : pieces.Pairwise fun p q => p.2 ≤ q.1
  nonneg : ∀ p ∈ pieces, 0 ≤ p.1
  piece : ∀ p ∈ pieces, Piece cap atSamples p

/-- The pieces of segments in order are in order, and have all of their samples. -/
theorem cappedSegments_returns (hcap : 0 < cap)
    (hordered : segments.Pairwise fun p q => p.2 ≤ q.1) (hnonneg : ∀ seg ∈ segments, 0 ≤ seg.1)
    (hlt : ∀ seg ∈ segments, seg.1 < seg.2)
    (hwhole : ∀ seg ∈ segments, Whole seg.1 ∧ Whole seg.2) :
    ∃ capped, Returns (cappedSegments cap segments) capped ∧
      Capped cap (CutsAtSamples cap segments) capped ∧
      (∀ p ∈ capped, p.1 < p.2) ∧
      ∀ seg ∈ segments, ∀ n : Int, sampleAt seg.1 ≤ n → n < sampleAt seg.2 →
        ∃ p ∈ capped, sampleAt p.1 ≤ n ∧ n < sampleAt p.2 := by
  choose! pieces hreturns htiles hlengths using
    fun seg (hseg : seg ∈ segments) => capSegment_returns (CutsAtSamples cap segments) hcap
      (hlt seg hseg) (fun hat => hat.imp_right fun hfit => hfit seg hseg) (hwhole seg hseg)
  refine ⟨(segments.map pieces).flatten, (returns_mapM hreturns).map List.flatten, ?_⟩
  rw [← List.flatMap_def]
  have hwithin : ∀ p ∈ segments.flatMap pieces,
      0 ≤ p.1 ∧ p.1 < p.2 ∧ Piece cap (CutsAtSamples cap segments) p := by
    intro p hp
    obtain ⟨seg, hseg, hp⟩ := List.mem_flatMap.mp hp
    obtain ⟨hstart, hlt, -⟩ := (htiles seg hseg).within hp
    exact ⟨(hnonneg seg hseg).trans hstart, hlt, hlengths seg hseg p hp⟩
  refine ⟨⟨?_, fun p hp => (hwithin p hp).1, fun p hp => (hwithin p hp).2.2⟩,
    fun p hp => (hwithin p hp).2.1, ?_⟩
  · refine List.pairwise_flatMap.mpr ⟨fun seg hseg => (htiles seg hseg).ordered, ?_⟩
    refine hordered.imp_of_mem fun {seg seg'} hseg hseg' hle p hp q hq => ?_
    have hstop := ((htiles seg hseg).within hp).2.2
    have hstart := ((htiles seg' hseg').within hq).1
    exact hstop.trans (hle.trans hstart)
  · intro seg hseg n hn hn'
    obtain ⟨p, hp, hpn⟩ := (htiles seg hseg).covers_image hn hn'
    exact ⟨p, List.mem_flatMap.mpr ⟨seg, hseg, hp⟩, hpn⟩

end Pieces

section Chunks

variable {speech : DetectedSpeech} {cap startOffset : Rat} {capped : List (Rat × Rat)}
  {group : Rat × Rat} {c : AudioChunk}

/-- The groups are no longer than the cap either, and each of the pieces is in a group. -/
theorem Capped.groups {atSamples : Prop} (h : Capped cap atSamples capped)
    (hlt : ∀ p ∈ capped, p.1 < p.2) :
    Capped cap atSamples (coalesce (fitsGroup cap) extendGroup capped) ∧
      ∀ p ∈ capped, ∃ group ∈ coalesce (fitsGroup cap) extendGroup capped,
        group.1 ≤ p.1 ∧ p.2 ≤ group.2 := by
  have hstart : ∀ p q : Rat × Rat, (extendGroup p q).1 = p.1 := fun _ _ => rfl
  have hstop : ∀ p q : Rat × Rat, (extendGroup p q).2 = q.2 := fun _ _ => rfl
  refine ⟨⟨coalesce_ordered hstart hstop h.ordered, ?_, ?_⟩,
    coalesce_contains hstart hstop (fun p hp => (hlt p hp).le) h.ordered⟩
  · exact coalesce_all h.nonneg fun p q hp _ _ => hp
  · exact coalesce_all h.piece fun p q hp hq hfits =>
      ⟨of_decide_eq_true hfits, fun hat => ⟨(hp.whole hat).1, (hq.whole hat).2⟩⟩

/-- A chunk holds the samples of a span which is no longer than the cap. -/
structure WellCut (speech : DetectedSpeech) (cap : Rat) (c : AudioChunk) : Prop where
  startSample : c.startSample = sampleAt c.offset
  endSample : c.endSample = min (speech.totalSamples : Int) (sampleAt c.stop)
  nonempty : c.startSample < c.endSample
  length : c.stop - c.offset ≤ cap

/-- What the chunk of a group is. -/
theorem cutGroup_eq_some (hgroup : 0 ≤ group.1)
    (h : cutGroup speech.totalSamples startOffset group = some c) :
    c.offset = max group.1 startOffset ∧ c.stop = group.2 ∧
      c.startSample = sampleAt c.offset ∧
      c.endSample = min (speech.totalSamples : Int) (sampleAt c.stop) ∧
      c.startSample < c.endSample := by
  have hstart : (if group.1 < startOffset then startOffset else group.1) =
      max group.1 startOffset := (max_def_lt _ _).symm
  have hnonneg : 0 ≤ sampleAt (max group.1 startOffset) :=
    sampleAt_nonneg (hgroup.trans (le_max_left _ _))
  simp only [cutGroup, hstart, max_eq_right hnonneg, Option.ite_none_left_eq_some,
    Option.some.injEq] at h
  obtain ⟨-, hempty, rfl⟩ := h
  exact ⟨rfl, rfl, rfl, rfl, not_le.mp hempty⟩

/-- The chunk of a group that is no longer than the cap, cut at samples where the group is. -/
theorem Capped.cutGroup {groups : List (Rat × Rat)} {atSamples : Prop}
    (h : Capped cap atSamples groups) (hgroup : group ∈ groups)
    (hcut : cutGroup speech.totalSamples startOffset group = some c) :
    WellCut speech cap c ∧ startOffset ≤ c.offset ∧
      (atSamples → Whole startOffset → Whole c.offset ∧ Whole c.stop) := by
  obtain ⟨hoffset, hstop, hstart, hend, hne⟩ := cutGroup_eq_some (h.nonneg group hgroup) hcut
  have hlength : c.stop - c.offset ≤ cap := by
    rw [hoffset, hstop]
    linarith [(h.piece group hgroup).length, le_max_left group.1 startOffset]
  refine ⟨⟨hstart, hend, hne, hlength⟩, hoffset ▸ le_max_right _ _, fun hcuts hresume => ?_⟩
  obtain ⟨hfirst, hlast⟩ := (h.piece group hgroup).whole hcuts
  rw [hoffset, hstop]
  exact ⟨max_rec' Whole hfirst hresume, hlast⟩

/-- The samples of a group are in its chunk, but for those before the resume boundary or right
after it. -/
theorem cutGroup_holds {n : Nat} (htotal : n < speech.totalSamples)
    (hresume : sampleAt startOffset ≤ n) (hn : sampleAt group.1 ≤ n)
    (hn' : (n : Int) < sampleAt group.2) :
    (∃ c, cutGroup speech.totalSamples startOffset group = some c ∧ c.Holds n) ∨
      (n : Rat) / SAMPLE_RATE < startOffset + 1 / 1000 := by
  rcases le_or_gt group.2 (startOffset + 1 / 1000) with hdropped | hkept
  · exact Or.inr ((time_lt_of_lt_sampleAt hn').trans_le hdropped)
  · left
    let start := if group.1 < startOffset then startOffset else group.1
    have hstart : max 0 (sampleAt start) ≤ n := by
      refine max_le (Int.natCast_nonneg n) ?_
      rcases ite_eq_or_eq (group.1 < startOffset) startOffset group.1 with heq | heq
      · exact (congrArg sampleAt heq).le.trans hresume
      · exact (congrArg sampleAt heq).le.trans hn
    have hstop : (n : Int) < min (speech.totalSamples : Int) (sampleAt group.2) :=
      lt_min (by exact_mod_cast htotal) hn'
    refine ⟨⟨start, group.2, _, _⟩, ?_, hstart, hstop⟩
    rw [cutGroup, if_neg (not_le.mpr hkept)]
    exact if_neg (not_le.mpr (hstart.trans_lt hstop))

/-- The audio of a chunk goes to the sample of its end at most. -/
theorem WellCut.duration_le_samples (h : WellCut speech cap c) :
    c.duration ≤ ((sampleAt c.stop - sampleAt c.offset : Int) : Rat) / SAMPLE_RATE := by
  have hend : c.endSample - c.startSample ≤ sampleAt c.stop - sampleAt c.offset := by
    rw [h.startSample, h.endSample]
    exact Int.sub_le_sub_right (min_le_right _ _) _
  rw [AudioChunk.duration, ← Int.cast_sub]
  exact div_le_div_of_nonneg_right (by exact_mod_cast hend) (by norm_num [SAMPLE_RATE])

/-- The audio of a chunk is longer than the cap by one sample at most. -/
theorem WellCut.duration_le (h : WellCut speech cap c) : c.duration ≤ cap + 1 / SAMPLE_RATE :=
  calc c.duration
      ≤ ((sampleAt c.stop - sampleAt c.offset : Int) : Rat) / SAMPLE_RATE := h.duration_le_samples
    _ ≤ c.stop - c.offset + 1 / SAMPLE_RATE := sampleAt_sub_le _ _
    _ ≤ cap + 1 / SAMPLE_RATE := by linarith [h.length]

/-- The audio of a chunk that falls on samples is no longer than the cap. -/
theorem WellCut.duration_le_cap (h : WellCut speech cap c) (hoffset : Whole c.offset)
    (hstop : Whole c.stop) : c.duration ≤ cap :=
  calc c.duration
      ≤ ((sampleAt c.stop - sampleAt c.offset : Int) : Rat) / SAMPLE_RATE := h.duration_le_samples
    _ = c.stop - c.offset := hoffset.sub_eq hstop
    _ ≤ cap := h.length

/-- The audio of a chunk ends before that of a later one begins. -/
theorem WellCut.endSample_le {d : AudioChunk} {cap' : Rat} (hc : WellCut speech cap c)
    (hd : WellCut speech cap' d) (h : c.stop ≤ d.offset) : c.endSample ≤ d.startSample := by
  rw [hc.endSample, hd.startSample]
  exact (min_le_right _ _).trans (sampleAt_mono h)

/-- What a pass cuts out of the audio from a resume boundary on. -/
structure Cut (speech : DetectedSpeech) (cap startOffset : Rat) (chunks : List AudioChunk) :
    Prop where
  ordered : chunks.Pairwise fun c d => c.stop ≤ d.offset
  wellCut : ∀ c ∈ chunks, WellCut speech cap c
  resumed : ∀ c ∈ chunks, startOffset ≤ c.offset
  whole : CutsAtSamples cap (speechSegments speech) → Whole startOffset →
    ∀ c ∈ chunks, Whole c.offset ∧ Whole c.stop
  holds : ∀ n, speech.Holds n → sampleAt startOffset ≤ n →
    (∃ c ∈ chunks, c.Holds n) ∨ (n : Rat) / SAMPLE_RATE < startOffset + 1 / 1000

/-- The segments of the source are in order, after the start of the audio, have a length and
fall on samples. -/
theorem speechSegments_spec (speech : DetectedSpeech) :
    (speechSegments speech).Pairwise (fun p q => p.2 ≤ q.1) ∧
      (∀ seg ∈ speechSegments speech, 0 ≤ seg.1) ∧ (∀ seg ∈ speechSegments speech, seg.1 < seg.2) ∧
      ∀ seg ∈ speechSegments speech, Whole seg.1 ∧ Whole seg.2 := by
  have hrate : (0 : Rat) < SAMPLE_RATE := by norm_num [SAMPLE_RATE]
  refine ⟨?_, ?_, ?_, ?_⟩
  · rw [speechSegments, List.pairwise_map]
    refine (speech.ordered.filter _).imp fun {p q} hle => ?_
    exact div_le_div_of_nonneg_right (by exact_mod_cast hle) hrate.le
  · intro seg hseg
    obtain ⟨raw, -, rfl⟩ := List.mem_map.mp hseg
    positivity
  · intro seg hseg
    obtain ⟨raw, hraw, rfl⟩ := List.mem_map.mp hseg
    have hlt : raw.1 < raw.2 := by simpa using (List.mem_filter.mp hraw).2
    exact div_lt_div_of_pos_right (by exact_mod_cast hlt) hrate
  · intro seg hseg
    obtain ⟨raw, -, rfl⟩ := List.mem_map.mp hseg
    exact ⟨whole_natCast _, whole_natCast _⟩

/-- With a positive cap the audio is cut into chunks, and no speech after the resume boundary
is lost. -/
theorem split_returns (speech : DetectedSpeech) (startOffset : Rat) (hcap : 0 < cap) :
    ∃ chunks, Returns (split speech cap startOffset) chunks ∧
      Cut speech cap startOffset chunks := by
  obtain ⟨hordered, hnonneg, hlt, hwhole⟩ := speechSegments_spec speech
  obtain ⟨capped, hreturns, hcapped, hpos, hpieces⟩ :=
    cappedSegments_returns hcap hordered hnonneg hlt hwhole
  obtain ⟨hgroups, hin⟩ := hcapped.groups hpos
  have hchunk : ∀ c ∈ (coalesce (fitsGroup cap) extendGroup capped).filterMap
      (cutGroup speech.totalSamples startOffset),
      WellCut speech cap c ∧ startOffset ≤ c.offset ∧
        (CutsAtSamples cap (speechSegments speech) → Whole startOffset →
          Whole c.offset ∧ Whole c.stop) := by
    intro c hc
    obtain ⟨group, hgroup, hcut⟩ := List.mem_filterMap.mp hc
    exact hgroups.cutGroup hgroup hcut
  refine ⟨_, hreturns.map _, ?_, fun c hc => (hchunk c hc).1, fun c hc => (hchunk c hc).2.1,
    fun hcap hresume c hc => (hchunk c hc).2.2 hcap hresume, ?_⟩
  · rw [List.pairwise_filterMap]
    refine hgroups.ordered.imp_of_mem fun {g g'} hg hg' hle c hc d hd => ?_
    obtain ⟨-, hstop, -⟩ := cutGroup_eq_some (hgroups.nonneg g hg) hc
    obtain ⟨hoffset, -⟩ := cutGroup_eq_some (hgroups.nonneg g' hg') hd
    rw [hstop, hoffset]
    exact hle.trans (le_max_left _ _)
  · rintro n ⟨htotal, raw, hraw, hn, hn'⟩ hresume
    -- the segment, one of its pieces, and the group of that piece
    have hseg : ((raw.1 : Rat) / SAMPLE_RATE, (raw.2 : Rat) / SAMPLE_RATE) ∈
        speechSegments speech := by
      refine List.mem_map_of_mem (List.mem_filter.mpr ⟨hraw, ?_⟩)
      exact decide_eq_true (hn.trans_lt hn')
    obtain ⟨p, hp, hpn, hpn'⟩ := hpieces _ hseg n
      (by rw [sampleAt_natCast]; exact_mod_cast hn) (by rw [sampleAt_natCast]; exact_mod_cast hn')
    obtain ⟨group, hgroup, hstart, hstop⟩ := hin p hp
    refine (cutGroup_holds htotal hresume ((sampleAt_mono hstart).trans hpn)
      (hpn'.trans_le (sampleAt_mono hstop))).imp_left ?_
    rintro ⟨c, hcut, hc⟩
    exact ⟨c, List.mem_filterMap.mpr ⟨group, hgroup, hcut⟩, hc⟩

end Chunks

end Dalston.Engines
