import Mathlib

/-!
# Speech regions from frame probabilities

The offline detector asks its model for the speech probability of every window of an audio. A
window at or above the threshold opens a region, and a run of silent windows that is long enough
closes it where the run began. Regions that are too short are dropped.

## Implementation notes

Durations are whole samples: a setting in milliseconds is cut off to samples as the source does,
with the division taken as exact. The padding that callers may pass is ignored by the source. The
model may answer each window in its own way.
-/

namespace Dalston.Engines.SpeechTimestamps

def WINDOW_SAMPLES : Int := 512

/-- A region of speech, in samples. -/
structure Region where
  start : Int
  stop : Int
  deriving DecidableEq, Repr

/-- The settings of a detection. -/
structure Settings where
  threshold : Rat
  samplingRate : Int
  minSpeechDurationMs : Int
  minSilenceDurationMs : Int

/-- `int(ms * sampling_rate / 1000)`. -/
def Settings.samples (settings : Settings) (ms : Int) : Int :=
  (ms * settings.samplingRate).tdiv 1000

def Settings.minSpeechSamples (settings : Settings) : Int :=
  settings.samples settings.minSpeechDurationMs

def Settings.minSilenceSamples (settings : Settings) : Int :=
  settings.samples settings.minSilenceDurationMs

structure ScanState where
  regions : List Region
  inSpeech : Bool
  regionStart : Int
  silenceRun : Int

def ScanState.start : ScanState := ⟨[], false, 0, 0⟩

variable (settings : Settings)

/-- Add the region unless it is too short. -/
def addRegion (regions : List Region) (region : Region) : List Region :=
  if settings.minSpeechSamples ≤ region.stop - region.start then regions ++ [region] else regions

/-- One round of the loop over the frames. -/
def scanFrame (s : ScanState) (i : Nat) (p : Rat) : ScanState :=
  let frameStart := i * WINDOW_SAMPLES
  if settings.threshold ≤ p then
    if s.inSpeech then { s with silenceRun := 0 }
    else { s with inSpeech := true, regionStart := frameStart, silenceRun := 0 }
  else if s.inSpeech then
    let silenceRun := s.silenceRun + WINDOW_SAMPLES
    if settings.minSilenceSamples ≤ silenceRun then
      let regionEnd := frameStart - silenceRun + WINDOW_SAMPLES
      { s with
          regions := addRegion settings s.regions ⟨s.regionStart, regionEnd⟩
          inSpeech := false
          silenceRun := 0 }
    else { s with silenceRun := silenceRun }
  else s

/-- The loop, from a frame on. -/
def scanFrames (s : ScanState) (i : Nat) : List Rat → ScanState
  | [] => s
  | p :: rest => scanFrames (scanFrame settings s i p) (i + 1) rest

/-- The model's answers for the windows of an audio. -/
def frameProbs (total : Nat) (model : Nat → Rat) : List Rat :=
  (List.range (total / 512)).map model

/-- Close the region that the last frame leaves open. -/
def finish (s : ScanState) (frames : Nat) : List Region :=
  if s.inSpeech then addRegion settings s.regions ⟨s.regionStart, frames * WINDOW_SAMPLES⟩
  else s.regions

/-- `_get_speech_timestamps_offline` of an audio with this number of samples. -/
def getSpeechTimestampsOffline (total : Nat) (model : Nat → Rat) : List Region :=
  let probs := frameProbs total model
  finish settings (scanFrames settings .start 0 probs) probs.length

/-- A frame of the region is at or above the threshold. -/
def Spoken (model : Nat → Rat) (r : Region) : Prop :=
  ∃ i : Nat, r.start ≤ i * WINDOW_SAMPLES ∧ (i + 1) * WINDOW_SAMPLES ≤ r.stop ∧
    settings.threshold ≤ model i

/-- The region lies before the position, with the silence between them. -/
def Before (r : Region) (position : Int) : Prop :=
  r.stop < position ∧ r.stop + settings.minSilenceSamples ≤ position

/-- The region is spoken, long enough, and lies before the end of an audio. -/
structure Proper (model : Nat → Rat) (total : Int) (r : Region) : Prop where
  start_nonneg : 0 ≤ r.start
  nonempty : r.start < r.stop
  within : r.stop ≤ total
  spoken : Spoken settings model r
  long : settings.minSpeechSamples ≤ r.stop - r.start

/-- Proper regions in ascending order, disjoint and separated by silence. -/
structure Regular (model : Nat → Rat) (total : Int) (regions : List Region) : Prop where
  proper : ∀ r ∈ regions, Proper settings model total r
  apart : regions.Pairwise fun r r' => Before settings r r'.start

/-- A region is open: its loud frames end where the run of silence began. -/
structure Open (model : Nat → Rat) (position : Int) (s : ScanState) : Prop where
  start_nonneg : 0 ≤ s.regionStart
  run_nonneg : 0 ≤ s.silenceRun
  spoken : Spoken settings model ⟨s.regionStart, position - s.silenceRun⟩
  before : ∀ r ∈ s.regions, Before settings r s.regionStart

/-- What holds when the frames before the given one have been scanned. -/
structure Scanned (model : Nat → Rat) (i : Nat) (s : ScanState) : Prop where
  regular : Regular settings model (i * WINDOW_SAMPLES) s.regions
  idle : s.inSpeech = false → ∀ r ∈ s.regions, Before settings r (i * WINDOW_SAMPLES)
  speaking : s.inSpeech = true → Open settings model (i * WINDOW_SAMPLES) s

section Regions

variable {settings} {model : Nat → Rat} {regions : List Region} {total total' : Int}

theorem Regular.mono (h : Regular settings model total regions) (hle : total ≤ total') :
    Regular settings model total' regions := by
  refine ⟨fun r hr => ?_, h.apart⟩
  have hproper := h.proper r hr
  exact { hproper with within := hproper.within.trans hle }

theorem Before.mono {r : Region} {p p' : Int} (h : Before settings r p) (hle : p ≤ p') :
    Before settings r p' :=
  ⟨h.1.trans_le hle, h.2.trans hle⟩

/-- A spoken region is as long as its loud frame at least. -/
theorem Spoken.nonempty {r : Region} (h : Spoken settings model r) : r.start < r.stop := by
  obtain ⟨i, hstart, hstop, -⟩ := h
  unfold WINDOW_SAMPLES at hstart hstop
  omega

theorem Spoken.extend {start stop stop' : Int} (h : Spoken settings model ⟨start, stop⟩)
    (hle : stop ≤ stop') : Spoken settings model ⟨start, stop'⟩ := by
  obtain ⟨i, hstart, hstop, hloud⟩ := h
  exact ⟨i, hstart, hstop.trans hle, hloud⟩

/-- A spoken region is added after the regions before it. -/
theorem Regular.addRegion {r : Region} (h : Regular settings model total regions)
    (hnonneg : 0 ≤ r.start) (hspoken : Spoken settings model r) (hwithin : r.stop ≤ total)
    (hbefore : ∀ r' ∈ regions, Before settings r' r.start) :
    Regular settings model total (addRegion settings regions r) := by
  unfold SpeechTimestamps.addRegion
  split
  · rename_i hlong
    constructor
    · intro r' hr'
      rcases List.mem_append.mp hr' with hr' | hr'
      · exact h.proper r' hr'
      · obtain rfl := List.mem_singleton.mp hr'
        exact ⟨hnonneg, hspoken.nonempty, hwithin, hspoken, hlong⟩
    · refine List.pairwise_append.mpr ⟨h.apart, List.pairwise_singleton _ _, ?_⟩
      rintro r' hr' _ hmem
      obtain rfl := List.mem_singleton.mp hmem
      exact hbefore r' hr'
  · exact h

theorem mem_addRegion {r r' : Region} (h : r' ∈ addRegion settings regions r) :
    r' ∈ regions ∨ r' = r := by
  unfold addRegion at h
  split at h
  · simpa using h
  · exact Or.inl h

end Regions

section Scan

variable {settings} {model : Nat → Rat} {i : Nat} {s : ScanState}

theorem position_succ (i : Nat) :
    ((i + 1 : Nat) : Int) * WINDOW_SAMPLES = i * WINDOW_SAMPLES + WINDOW_SAMPLES := by
  push_cast
  ring

theorem spoken_frame (h : settings.threshold ≤ model i) {start stop : Int}
    (hstart : start ≤ i * WINDOW_SAMPLES) (hstop : i * WINDOW_SAMPLES + WINDOW_SAMPLES ≤ stop) :
    Spoken settings model ⟨start, stop⟩ := by
  refine ⟨i, hstart, ?_, h⟩
  rw [add_mul, one_mul]
  exact hstop

/-- A loud frame opens a region, or breaks off the silence in an open one. -/
theorem Scanned.loud (h : Scanned settings model i s) (hloud : settings.threshold ≤ model i) :
    Scanned settings model (i + 1) (scanFrame settings s i (model i)) := by
  have hregular : Regular settings model ((i + 1 : Nat) * WINDOW_SAMPLES) s.regions :=
    h.regular.mono (by rw [position_succ, WINDOW_SAMPLES]; omega)
  simp only [scanFrame, hloud, if_true]
  split
  · rename_i hspeaking
    have hopen := h.speaking hspeaking
    have hrun := hopen.run_nonneg
    refine ⟨hregular, fun hidle => Bool.noConfusion (hspeaking.symm.trans hidle), fun _ => ?_⟩
    refine ⟨hopen.start_nonneg, le_refl 0, hopen.spoken.extend ?_, hopen.before⟩
    dsimp only
    rw [position_succ, WINDOW_SAMPLES]
    omega
  · rename_i hidle
    refine ⟨hregular, fun hspeaking => Bool.noConfusion hspeaking, fun _ => ?_⟩
    refine ⟨?_, le_refl 0, ?_, h.idle (by simpa using hidle)⟩
    · dsimp only
      unfold WINDOW_SAMPLES
      omega
    · exact spoken_frame hloud (le_refl _) (by rw [position_succ, sub_zero])

/-- A silent frame lengthens the silence of an open region, and closes it where the silence
began when that is long enough. -/
theorem Scanned.silent (h : Scanned settings model i s) (hsilent : ¬ settings.threshold ≤ model i) :
    Scanned settings model (i + 1) (scanFrame settings s i (model i)) := by
  have hle : (i * WINDOW_SAMPLES : Int) ≤ ((i + 1 : Nat) : Int) * WINDOW_SAMPLES := by
    rw [position_succ, WINDOW_SAMPLES]
    omega
  simp only [scanFrame, hsilent, if_false]
  split
  · rename_i hspeaking
    have hopen := h.speaking hspeaking
    have hrun := hopen.run_nonneg
    split
    · rename_i hlong
      have hstop : (i * WINDOW_SAMPLES - (s.silenceRun + WINDOW_SAMPLES) + WINDOW_SAMPLES : Int) =
          i * WINDOW_SAMPLES - s.silenceRun := by ring
      rw [hstop]
      have hadded := h.regular.addRegion (r := ⟨s.regionStart, i * WINDOW_SAMPLES - s.silenceRun⟩)
        hopen.start_nonneg hopen.spoken (by dsimp only; omega) hopen.before
      refine ⟨hadded.mono hle, fun _ r hr => ?_, fun hspeaking => Bool.noConfusion hspeaking⟩
      rw [position_succ]
      rcases mem_addRegion hr with hr | rfl
      · refine (hopen.before r hr).mono ?_
        have hnonempty := hopen.spoken.nonempty
        dsimp only at hnonempty
        unfold WINDOW_SAMPLES at *
        omega
      · constructor <;> dsimp only <;> unfold WINDOW_SAMPLES at * <;> omega
    · refine ⟨h.regular.mono hle, fun hidle => Bool.noConfusion (hspeaking.symm.trans hidle),
        fun _ => ⟨hopen.start_nonneg, ?_, ?_, hopen.before⟩⟩
      · dsimp only
        unfold WINDOW_SAMPLES
        omega
      · refine hopen.spoken.extend (le_of_eq ?_)
        rw [position_succ]
        ring
  · rename_i hidle
    have hnot : s.inSpeech = false := by simpa using hidle
    refine ⟨h.regular.mono hle, fun _ r hr => (h.idle hnot r hr).mono hle, fun hspeaking => ?_⟩
    exact Bool.noConfusion (hnot.symm.trans hspeaking)

theorem Scanned.step (h : Scanned settings model i s) :
    Scanned settings model (i + 1) (scanFrame settings s i (model i)) := by
  by_cases hloud : settings.threshold ≤ model i
  · exact h.loud hloud
  · exact h.silent hloud

theorem Scanned.run (h : Scanned settings model i s) (n : Nat) :
    Scanned settings model (i + n)
      (scanFrames settings s i ((List.range' i n).map model)) := by
  induction n generalizing i s with
  | zero => exact h
  | succ n ih =>
      rw [List.range'_succ, List.map_cons, scanFrames, ← Nat.add_assoc, Nat.add_right_comm]
      exact ih h.step

theorem scanned_start : Scanned settings model 0 .start := by
  refine ⟨⟨?_, List.Pairwise.nil⟩, ?_, ?_⟩ <;> simp [ScanState.start]

end Scan

/-- The regions of every audio are in order, disjoint, within it, spoken, long enough and
separated by silence. -/
theorem speechTimestamps_regular (total : Nat) (model : Nat → Rat) :
    Regular settings model total (getSpeechTimestampsOffline settings total model) := by
  have hscanned : Scanned settings model (0 + total / 512)
      (scanFrames settings .start 0 ((List.range' 0 (total / 512)).map model)) :=
    scanned_start.run _
  rw [Nat.zero_add, ← List.range_eq_range'] at hscanned
  have hle : ((total / 512 : Nat) * WINDOW_SAMPLES : Int) ≤ total := by
    unfold WINDOW_SAMPLES
    omega
  simp only [getSpeechTimestampsOffline, frameProbs, List.length_map, List.length_range, finish]
  split
  · rename_i hspeaking
    have hopen := hscanned.speaking hspeaking
    have hrun := hopen.run_nonneg
    refine (hscanned.regular.mono hle).addRegion hopen.start_nonneg ?_ hle hopen.before
    exact hopen.spoken.extend (by omega)
  · exact hscanned.regular.mono hle

/-- Two seconds of speech, with a pause of half a second in them, at the default settings. -/
example : getSpeechTimestampsOffline ⟨1 / 2, 16000, 250, 300⟩ 40000
    (fun i => if i < 30 ∨ 46 ≤ i ∧ i < 62 then 9 / 10 else 1 / 10) =
      [⟨0, 15360⟩, ⟨23552, 31744⟩] := by
  decide +kernel

end Dalston.Engines.SpeechTimestamps
