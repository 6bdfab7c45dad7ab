import Dalston.Realtime.VadProcessor

/-!
# Forced endpoints

A session cuts an utterance off when it gets longer than it may, and the detector goes on in
the speech state with an empty buffer. The run with forced endpoints is set beside the run of
the same chunks without them: the pieces of an utterance are compared with the utterance.
-/

namespace Dalston.Realtime.Vad

open Model

/-- The settings of a session that forced endpoints depend on. -/
structure Limits where
  maxUtteranceDuration : Rat
  channels : Nat

/-- What reaches the detector of a session: chunks and flushes. -/
inductive Heard (C : Type)
  | chunk (audio : C) (prob : Rat)
  | flush

section Sessions

variable {C : Type} (samples : C → Nat) (limits : Limits)

def samplesToSeconds (config : VADConfig) (sampleCount : Nat) : Rat :=
  if sampleCount ≤ 0 then 0 else roundDouble (sampleCount / (config.sampleRate * limits.channels))

def checkMaxUtteranceDuration (v : VADProcessor C) : VADProcessor C × Option (List C) :=
  if limits.maxUtteranceDuration ≤
      samplesToSeconds limits v.config (v.getSpeechBufferSamples samples) then
    v.forceEndpoint
  else (v, none)

/-- One chunk or flush, with the utterances that the detector returns. -/
def hear (v : VADProcessor C) : Heard C → VADProcessor C × List (List C)
  | .chunk audio prob =>
    let (v', result) := v.processChunk samples audio prob
    if v'.state = .speech ∧ 0 < limits.maxUtteranceDuration then
      let (v'', forced) := checkMaxUtteranceDuration samples limits v'
      (v'', result.speechAudio.toList ++ forced.toList)
    else (v', result.speechAudio.toList)
  | .flush => ((v.flush).1, (v.flush).2.toList)

/-- The limits without a longest utterance. -/
def Limits.off : Limits := { limits with maxUtteranceDuration := 0 }

/-- Two runs of the same chunks, without forced endpoints and with them. `pieces` are those
of the utterance that is open, and `utterances` has each utterance of the first run with the
pieces that the second one has returned by its end. -/
structure Pair (C : Type) where
  whole : VADProcessor C
  split : VADProcessor C
  pieces : List (List C) := []
  utterances : List (List C × List (List C)) := []

/-- The pieces of the open utterance after the operation. -/
def Pair.piecesAfter (p : Pair C) (op : Heard C) : List (List C) :=
  p.pieces ++ (hear samples limits p.split op).2

def Pair.next (p : Pair C) (op : Heard C) : Pair C where
  whole := (hear samples limits.off p.whole op).1
  split := (hear samples limits p.split op).1
  pieces :=
    if (hear samples limits.off p.whole op).1.state = .speech then
      p.piecesAfter samples limits op
    else []
  utterances := p.utterances ++
    (hear samples limits.off p.whole op).2.map fun u => (u, p.piecesAfter samples limits op)

def Pair.run (p : Pair C) (ops : List (Heard C)) : Pair C :=
  ops.foldl (Pair.next samples limits) p

/-- The silence with a silent chunk. -/
def VADProcessor.silenceAfter (v : VADProcessor C) (audio : C) : Rat :=
  roundDouble (v.silenceDuration + v.chunkDuration samples audio)

/-- The chunk is silent and ends the utterance of the detector. -/
def Ends (v : VADProcessor C) (audio : C) (prob : Rat) : Prop :=
  v.state = .speech ∧ ¬ v.config.speechThreshold < prob ∧
    v.config.minSilenceDuration ≤ v.silenceAfter samples audio

/-- Where an utterance ends, the silence since the last forced endpoint is long enough too, and
so is the speech since then. -/
def Pair.EndsTogether (p : Pair C) : Heard C → Prop
  | .chunk audio prob => Ends samples p.whole audio prob → Ends samples p.split audio prob ∧
      (p.whole.config.minSpeechDuration ≤ p.whole.speechDuration →
        p.whole.config.minSpeechDuration ≤ p.split.speechDuration)
  | .flush => p.whole.state = .speech →
      p.whole.config.minSpeechDuration ≤ p.whole.speechDuration →
        p.whole.config.minSpeechDuration ≤ p.split.speechDuration ∨ p.split.speechBuffer = []

def Pair.AllEndTogether (p : Pair C) : List (Heard C) → Prop
  | [] => True
  | op :: ops => p.EndsTogether samples op ∧ (p.next samples limits op).AllEndTogether ops

end Sessions

section Lockstep

variable {C : Type} {samples : C → Nat} {limits : Limits}

/-- The two detectors are in step: what the buffer of the second lacks has been returned. -/
structure InStep (whole split : VADProcessor C) (pieces : List (List C)) : Prop where
  config : split.config = whole.config
  state : split.state = whole.state
  lookback : split.lookbackBuffer = whole.lookbackBuffer
  buffer : whole.speechBuffer = pieces.flatten ++ split.speechBuffer
  silence : split.silenceDuration ≤ whole.silenceDuration
  speech : split.speechDuration ≤ whole.speechDuration
  nonneg : 0 ≤ split.silenceDuration ∧ 0 ≤ split.speechDuration
  closed : whole.state = .silence → pieces = []

theorem chunkDuration_nonneg (v : VADProcessor C) (audio : C) :
    0 ≤ v.chunkDuration samples audio := by
  rw [VADProcessor.chunkDuration]
  exact roundDouble_nonneg (by positivity)

theorem InStep.reset {whole split : VADProcessor C} {pieces : List (List C)}
    (h : InStep whole split pieces) :
    InStep whole.resetSpeechState split.resetSpeechState [] where
  config := h.config
  state := rfl
  lookback := h.lookback
  buffer := rfl
  silence := le_rfl
  speech := le_rfl
  nonneg := ⟨le_rfl, le_rfl⟩
  closed _ := rfl

/-- A forced endpoint moves the buffer of the second detector to the pieces. -/
theorem InStep.check {whole split : VADProcessor C} {pieces : List (List C)}
    (h : InStep whole split pieces) (hspeech : whole.state = .speech) :
    InStep whole (checkMaxUtteranceDuration samples limits split).1
      (pieces ++ (checkMaxUtteranceDuration samples limits split).2.toList) := by
  rw [checkMaxUtteranceDuration, VADProcessor.forceEndpoint]
  split_ifs with hlong hempty
  · simpa using h
  · exact {
      config := h.config
      state := h.state
      lookback := h.lookback
      buffer := by simp [h.buffer]
      silence := h.nonneg.1.trans h.silence
      speech := h.nonneg.2.trans h.speech
      nonneg := ⟨le_rfl, le_rfl⟩
      closed := fun hsilence => by simp [hspeech] at hsilence }
  · simpa using h

/-- A chunk that ends no utterance goes to both buffers. -/
theorem InStep.chunk {whole split : VADProcessor C} {pieces : List (List C)}
    (h : InStep whole split pieces) {audio : C} {prob : Rat}
    (hends : ¬ Ends samples whole audio prob) :
    InStep (whole.processChunk samples audio prob).1 (split.processChunk samples audio prob).1
        pieces ∧
      (whole.processChunk samples audio prob).2.speechAudio = none ∧
      (split.processChunk samples audio prob).2.speechAudio = none := by
  have hduration : 0 ≤ whole.chunkDuration samples audio := chunkDuration_nonneg whole audio
  have hsame : split.chunkDuration samples audio = whole.chunkDuration samples audio := by
    rw [VADProcessor.chunkDuration, VADProcessor.chunkDuration, h.config]
  have hpush : split.pushLookback audio = whole.pushLookback audio := by
    rw [VADProcessor.pushLookback, VADProcessor.pushLookback, h.config, h.lookback]
  obtain ⟨hsilence, hspeech⟩ := h.nonneg
  have hwait := roundDouble_add_le hsilence hduration h.silence
  have hwait' := roundDouble_add_nonneg hsilence hduration
  have hstate := h.state
  cases hwhole : whole.state with
  | silence =>
      rw [hwhole] at hstate
      have hclosed := h.closed hwhole
      subst hclosed
      simp only [VADProcessor.processChunk, VADProcessor.advance, hwhole, hstate, h.config, hsame,
        hpush]
      split_ifs
      · exact ⟨⟨rfl, rfl, rfl, rfl, le_rfl, le_rfl, ⟨le_rfl, hduration⟩, fun _ => rfl⟩, rfl, rfl⟩
      · exact ⟨⟨rfl, rfl, rfl, h.buffer, h.silence, h.speech, h.nonneg, fun _ => rfl⟩, rfl, rfl⟩
  | speech =>
      rw [hwhole] at hstate
      have hbuffer : whole.speechBuffer ++ [audio] =
          pieces.flatten ++ (split.speechBuffer ++ [audio]) := by
        rw [h.buffer, List.append_assoc]
      by_cases hloud : whole.config.speechThreshold < prob
      · simp only [VADProcessor.processChunk, VADProcessor.advance, hwhole, hstate, h.config,
          hsame, hpush, hloud, decide_true, if_true]
        exact ⟨⟨rfl, rfl, rfl, hbuffer, le_rfl, roundDouble_add_le hspeech hduration h.speech,
          ⟨le_rfl, roundDouble_add_nonneg hspeech hduration⟩, fun hquiet => by cases hquiet⟩,
          trivial, trivial⟩
      · have hshort : ¬ whole.config.minSilenceDuration ≤
            roundDouble (whole.silenceDuration + whole.chunkDuration samples audio) :=
          fun hlong => hends ⟨hwhole, hloud, hlong⟩
        have hshort' : ¬ whole.config.minSilenceDuration ≤
            roundDouble (split.silenceDuration + whole.chunkDuration samples audio) :=
          fun hlong => hshort (hlong.trans hwait)
        simp only [VADProcessor.processChunk, VADProcessor.advance, hwhole, hstate, h.config,
          hsame, hpush, hloud, decide_false, Bool.false_eq_true, if_false, if_neg hshort,
          if_neg hshort']
        exact ⟨⟨rfl, rfl, rfl, hbuffer, hwait, h.speech, ⟨hwait', hspeech⟩,
          fun hquiet => by cases hquiet⟩, trivial, trivial⟩

/-- A chunk that ends the utterance. -/
theorem processChunk_of_ends {v : VADProcessor C} {audio : C} {prob : Rat}
    (h : Ends samples v audio prob) :
    (v.processChunk samples audio prob).1 =
        { v.resetSpeechState with lookbackBuffer := v.pushLookback audio } ∧
      (v.processChunk samples audio prob).2.speechAudio =
        if v.config.minSpeechDuration ≤ v.speechDuration then some (v.speechBuffer ++ [audio])
        else none := by
  obtain ⟨hstate, hquiet, hlong⟩ := h
  rw [VADProcessor.silenceAfter] at hlong
  simp only [VADProcessor.processChunk, VADProcessor.advance, hstate, hquiet, decide_false,
    Bool.false_eq_true, if_false, if_pos hlong]
  split_ifs <;> exact ⟨rfl, rfl⟩

theorem hear_off (v : VADProcessor C) (audio : C) (prob : Rat) :
    hear samples limits.off v (.chunk audio prob) =
      ((v.processChunk samples audio prob).1,
        (v.processChunk samples audio prob).2.speechAudio.toList) := by
  simp [hear, Limits.off]

theorem hear_of_ends {v : VADProcessor C} {audio : C} {prob : Rat}
    (h : Ends samples v audio prob) :
    hear samples limits v (.chunk audio prob) =
      ((v.processChunk samples audio prob).1,
        (v.processChunk samples audio prob).2.speechAudio.toList) := by
  have hsilence : ((v.processChunk samples audio prob).1).state = .silence := by
    rw [(processChunk_of_ends h).1]
    rfl
  simp [hear, hsilence]

/-- What holds between two chunks or flushes of the two runs. -/
structure Pair.Sound (p : Pair C) : Prop where
  inStep : InStep p.whole p.split p.pieces
  whole : ∀ r ∈ p.utterances, r.2.flatten = r.1

/-- The rest of the utterance is returned at its end, or a forced endpoint on the last chunk
returns it. -/
def Pair.ReturnsAll (samples : C → Nat) (limits : Limits) (p : Pair C) : Heard C → Prop
  | .chunk audio prob =>
    (Ends samples p.split audio prob ∧
      p.split.config.minSpeechDuration ≤ p.split.speechDuration) ∨
    (¬ Ends samples p.split audio prob ∧ 0 < limits.maxUtteranceDuration ∧
      limits.maxUtteranceDuration ≤ samplesToSeconds limits p.split.config
        (((p.split.speechBuffer ++ [audio]).map samples).sum))
  | .flush => p.split.config.minSpeechDuration ≤ p.split.speechDuration ∨ p.split.speechBuffer = []

/-- A silent chunk in the speech state that does not end the utterance. -/
theorem processChunk_of_waits {v : VADProcessor C} {audio : C} {prob : Rat}
    (hstate : v.state = .speech) (hquiet : ¬ v.config.speechThreshold < prob)
    (hends : ¬ Ends samples v audio prob) :
    (v.processChunk samples audio prob).1.state = .speech ∧
      (v.processChunk samples audio prob).1.config = v.config ∧
      (v.processChunk samples audio prob).1.speechBuffer = v.speechBuffer ++ [audio] ∧
      (v.processChunk samples audio prob).2.speechAudio = none := by
  have hshort : ¬ v.config.minSilenceDuration ≤
      roundDouble (v.silenceDuration + v.chunkDuration samples audio) :=
    fun hlong => hends ⟨hstate, hquiet, hlong⟩
  simp only [VADProcessor.processChunk, VADProcessor.advance, hstate, hquiet, decide_false,
    Bool.false_eq_true, if_false, if_neg hshort, and_self]

/-- An utterance that a chunk returns ends with it and is long enough. -/
theorem InStep.returned {whole split : VADProcessor C} {pieces : List (List C)}
    (h : InStep whole split pieces) {audio : C} {prob : Rat} {u : List C}
    (hu : u ∈ (hear samples limits.off whole (.chunk audio prob)).2) :
    Ends samples whole audio prob ∧ whole.config.minSpeechDuration ≤ whole.speechDuration ∧
      u = whole.speechBuffer ++ [audio] := by
  rw [hear_off, Option.mem_toList] at hu
  by_cases hends : Ends samples whole audio prob
  · rw [(processChunk_of_ends hends).2] at hu
    split_ifs at hu with hlong
    exact ⟨hends, hlong, (Option.some.inj hu).symm⟩
  · rw [(h.chunk hends).2.1] at hu
    cases hu

theorem mem_flush {v : VADProcessor C} {u : List C} :
    u ∈ v.flush.2.toList ↔ v.state = .speech ∧ v.speechBuffer ≠ [] ∧
      v.config.minSpeechDuration ≤ v.speechDuration ∧ u = v.speechBuffer := by
  rw [Option.mem_toList, VADProcessor.flush]
  split_ifs with hreturn
  · simp [hreturn, eq_comm]
  · constructor
    · intro hnone
      cases hnone
    · rintro ⟨hstate, hbuffer, hlong, -⟩
      exact absurd ⟨hstate, hbuffer, hlong⟩ hreturn

theorem pieces_chunk_iff {p : Pair C} (h : InStep p.whole p.split p.pieces) {audio : C}
    {prob : Rat} {u : List C}
    (hu : u ∈ (hear samples limits.off p.whole (.chunk audio prob)).2) :
    (p.piecesAfter samples limits (.chunk audio prob)).flatten = u ↔
      p.ReturnsAll samples limits (.chunk audio prob) := by
  obtain ⟨⟨hstate, hquiet, -⟩, -, rfl⟩ := h.returned hu
  have hstate' := h.state.trans hstate
  have hquiet' : ¬ p.split.config.speechThreshold < prob := by rwa [h.config]
  -- the pieces so far end where the buffer of the second run begins
  have hmissing : ∀ more : List C, (p.pieces.flatten ++ more = p.whole.speechBuffer ++ [audio] ↔
      more = p.split.speechBuffer ++ [audio]) := by
    intro more
    rw [h.buffer, List.append_assoc, List.append_cancel_left_eq]
  rw [Pair.piecesAfter, List.flatten_append, hmissing, Pair.ReturnsAll]
  by_cases hsplit : Ends samples p.split audio prob
  · rw [hear_of_ends hsplit, (processChunk_of_ends hsplit).2]
    split_ifs with hlong
    · simp [hsplit, hlong]
    · simp [hsplit, hlong]
  · obtain ⟨hopen, hconfig, hbuffer, hnone⟩ := processChunk_of_waits hstate' hquiet' hsplit
    rw [hear]
    simp only [hopen, hnone, true_and, Option.toList_none, List.nil_append]
    by_cases hlimit : 0 < limits.maxUtteranceDuration
    · simp only [if_pos hlimit, checkMaxUtteranceDuration, VADProcessor.forceEndpoint,
        VADProcessor.getSpeechBufferSamples, hconfig, hbuffer]
      split_ifs with hlong hempty
      · simp at hempty
      · exact ⟨fun _ => Or.inr ⟨hsplit, hlimit, hlong⟩, fun _ => by simp⟩
      · constructor
        · intro hnothing
          simp at hnothing
        · rintro (⟨hends, -⟩ | ⟨-, -, hover⟩)
          · exact absurd hends hsplit
          · exact absurd hover hlong
    · simp [hsplit, hlimit]

theorem pieces_flush_iff {p : Pair C} (h : InStep p.whole p.split p.pieces) {u : List C}
    (hu : u ∈ (hear samples limits.off p.whole .flush).2) :
    (p.piecesAfter samples limits .flush).flatten = u ↔ p.ReturnsAll samples limits .flush := by
  obtain ⟨hstate, -, -, rfl⟩ := mem_flush.mp hu
  have hstate' := h.state.trans hstate
  rw [Pair.piecesAfter, Pair.ReturnsAll, hear, VADProcessor.flush, h.buffer]
  by_cases hbuffer : p.split.speechBuffer = []
  · simp [hbuffer]
  · by_cases hlong : p.split.config.minSpeechDuration ≤ p.split.speechDuration
    · simp [hstate', hbuffer, hlong]
    · simp [hbuffer, hlong]

/-- The pieces of an utterance by its end are the utterance where nothing of it is dropped. -/
theorem pieces_iff {p : Pair C} (h : InStep p.whole p.split p.pieces) {op : Heard C} {u : List C}
    (hu : u ∈ (hear samples limits.off p.whole op).2) :
    (p.piecesAfter samples limits op).flatten = u ↔ p.ReturnsAll samples limits op := by
  cases op with
  | chunk audio prob => exact pieces_chunk_iff h hu
  | flush => exact pieces_flush_iff h hu

theorem Pair.EndsTogether.returnsAll {p : Pair C} (h : InStep p.whole p.split p.pieces)
    {op : Heard C} (hend : p.EndsTogether samples op) {u : List C}
    (hu : u ∈ (hear samples limits.off p.whole op).2) : p.ReturnsAll samples limits op := by
  cases op with
  | chunk audio prob =>
      obtain ⟨hends, hlong, -⟩ := h.returned hu
      obtain ⟨hsplit, hshare⟩ := hend hends
      rw [← h.config] at hlong hshare
      exact Or.inl ⟨hsplit, hshare hlong⟩
  | flush =>
      obtain ⟨hstate, -, hlong, -⟩ := mem_flush.mp hu
      have hshare := hend hstate hlong
      rwa [← h.config] at hshare

section Steps

variable {p : Pair C}

theorem InStep.nextQuiet (h : InStep p.whole p.split p.pieces) {audio : C} {prob : Rat}
    (hends : ¬ Ends samples p.whole audio prob) :
    InStep (p.next samples limits (.chunk audio prob)).whole
      (p.next samples limits (.chunk audio prob)).split
      (p.next samples limits (.chunk audio prob)).pieces := by
  obtain ⟨hstep, hwhole, hsplit⟩ := h.chunk hends
  have hhear : hear samples limits.off p.whole (.chunk audio prob) =
      ((p.whole.processChunk samples audio prob).1, []) := by
    rw [hear_off, hwhole, Option.toList_none]
  have hstate := hstep.state
  simp only [Pair.next, Pair.piecesAfter, hhear]
  cases hopen : ((p.whole.processChunk samples audio prob).1).state with
  | silence =>
      have hsplit' : hear samples limits p.split (.chunk audio prob) =
          ((p.split.processChunk samples audio prob).1, []) := by
        simp [hear, hsplit, hstate, hopen]
      rw [hsplit', if_neg (by simp)]
      rwa [hstep.closed hopen] at hstep
  | speech =>
      rw [if_pos rfl, hear]
      simp only [hsplit, hstate, hopen, true_and, Option.toList_none, List.nil_append]
      split_ifs
      · exact hstep.check hopen
      · simpa using hstep

theorem InStep.nextEnds (h : InStep p.whole p.split p.pieces) {audio : C} {prob : Rat}
    (hwhole : Ends samples p.whole audio prob) (hsplit : Ends samples p.split audio prob) :
    InStep (p.next samples limits (.chunk audio prob)).whole
      (p.next samples limits (.chunk audio prob)).split
      (p.next samples limits (.chunk audio prob)).pieces := by
  have hpush : p.split.pushLookback audio = p.whole.pushLookback audio := by
    rw [VADProcessor.pushLookback, VADProcessor.pushLookback, h.config, h.lookback]
  simp only [Pair.next, hear_off, hear_of_ends hsplit, (processChunk_of_ends hwhole).1,
    (processChunk_of_ends hsplit).1, hpush]
  exact { h.reset with lookback := rfl }

theorem InStep.nextFlush (h : InStep p.whole p.split p.pieces) :
    InStep (p.next samples limits .flush).whole (p.next samples limits .flush).split
      (p.next samples limits .flush).pieces := by
  have hreset : ∀ v : VADProcessor C, v.flush.1 = v.resetSpeechState := by
    intro v
    rw [VADProcessor.flush]
    split_ifs <;> rfl
  simp only [Pair.next, hear, hreset]
  exact h.reset

end Steps

theorem Pair.Sound.next {p : Pair C} (h : p.Sound) {op : Heard C}
    (hend : p.EndsTogether samples op) : (p.next samples limits op).Sound where
  inStep := by
    cases op with
    | chunk audio prob =>
        by_cases hends : Ends samples p.whole audio prob
        · exact h.inStep.nextEnds hends (hend hends).1
        · exact h.inStep.nextQuiet hends
    | flush => exact h.inStep.nextFlush
  whole := by
    intro r hr
    rcases List.mem_append.mp hr with hr | hr
    · exact h.whole r hr
    · obtain ⟨u, hu, rfl⟩ := List.mem_map.mp hr
      exact (pieces_iff h.inStep hu).mpr (hend.returnsAll h.inStep hu)

theorem Pair.Sound.run {p : Pair C} (h : p.Sound) {ops : List (Heard C)}
    (hend : p.AllEndTogether samples limits ops) : (p.run samples limits ops).Sound := by
  induction ops generalizing p with
  | nil => exact h
  | cons op ops ih => exact ih (h.next hend.1) hend.2

theorem pair_sound (config : VADConfig) :
    Pair.Sound (C := C) ⟨{ config := config }, { config := config }, [], []⟩ where
  inStep := ⟨rfl, rfl, rfl, rfl, le_rfl, le_rfl, ⟨le_rfl, le_rfl⟩, fun _ => rfl⟩
  whole _ hr := absurd hr List.not_mem_nil

end Lockstep

/-- In a run whose utterances end together, the pieces of each utterance are the utterance. From
its state on, the pieces of the next utterance are the utterance exactly when the second run
returns the rest of it as well. -/
theorem forced_pieces {C : Type} (samples : C → Nat) (limits : Limits) (config : VADConfig)
    (ops : List (Heard C))
    (hend : Pair.AllEndTogether samples limits ⟨{ config := config }, { config := config }, [], []⟩
      ops) :
    let p := Pair.run samples limits ⟨{ config := config }, { config := config }, [], []⟩ ops
    (∀ r ∈ p.utterances, r.2.flatten = r.1) ∧
      ∀ op, ∀ u ∈ (hear samples limits.off p.whole op).2,
        (p.piecesAfter samples limits op).flatten = u ↔ p.ReturnsAll samples limits op := by
  have hsound := (pair_sound config).run hend
  exact ⟨hsound.whole, fun op u hu => pieces_iff hsound.inStep hu⟩

section Runs

/-- An utterance of so many chunks with speech and four silent ones. -/
def utteranceOf (speech : Nat) : List (Heard Nat) :=
  ((List.range speech).map fun chunk => .chunk chunk (9 / 10)) ++
    (List.range' speech 4).map fun chunk => .chunk chunk (1 / 10)

/-- A session that cuts utterances off after a second. -/
def oneSecond : Limits := ⟨1, 1⟩

def bothRuns (ops : List (Heard Nat)) : Pair Nat :=
  Pair.run tenth oneSecond ⟨{ config := {} }, { config := {} }, [], []⟩ ops

instance (v : VADProcessor Nat) (audio : Nat) (prob : Rat) : Decidable (Ends tenth v audio prob) :=
  inferInstanceAs (Decidable (v.state = .speech ∧ ¬ v.config.speechThreshold < prob ∧
    v.config.minSilenceDuration ≤ v.silenceAfter tenth audio))

instance (p : Pair Nat) : (op : Heard Nat) → Decidable (p.EndsTogether tenth op)
  | .chunk audio prob => inferInstanceAs (Decidable (Ends tenth p.whole audio prob →
      Ends tenth p.split audio prob ∧
      (p.whole.config.minSpeechDuration ≤ p.whole.speechDuration →
        p.whole.config.minSpeechDuration ≤ p.split.speechDuration)))
  | .flush => inferInstanceAs (Decidable (p.whole.state = .speech →
      p.whole.config.minSpeechDuration ≤ p.whole.speechDuration →
        p.whole.config.minSpeechDuration ≤ p.split.speechDuration ∨ p.split.speechBuffer = []))

instance decidableAllEndTogether : (p : Pair Nat) → (ops : List (Heard Nat)) →
    Decidable (p.AllEndTogether tenth oneSecond ops)
  | _, [] => inferInstanceAs (Decidable True)
  | p, op :: ops =>
    have := decidableAllEndTogether (p.next tenth oneSecond op) ops
    inferInstanceAs (Decidable (p.EndsTogether tenth op ∧
      (p.next tenth oneSecond op).AllEndTogether tenth oneSecond ops))

/-- Three chunks of speech after the forced endpoint make a piece of their own. -/
theorem thirteen_chunks :
    (bothRuns (utteranceOf 13)).utterances =
        [(List.range 17, [List.range 10, List.range' 10 7])] ∧
      (let p := Pair.run tenth oneSecond ⟨{ config := {} }, { config := {} }, [], []⟩
        (utteranceOf 13)
      (∀ r ∈ p.utterances, r.2.flatten = r.1) ∧
        ∀ op, ∀ u ∈ (hear tenth oneSecond.off p.whole op).2,
          (p.piecesAfter tenth oneSecond op).flatten = u ↔ p.ReturnsAll tenth oneSecond op) :=
  ⟨by decide +kernel, forced_pieces tenth oneSecond {} (utteranceOf 13) (by decide +kernel)⟩

/-- One chunk of speech after the forced endpoint is too short: the tail is dropped. -/
theorem tail_dropped :
    (bothRuns (utteranceOf 11)).utterances = [(List.range 15, [List.range 10])] := by
  decide +kernel

end Runs

end Dalston.Realtime.Vad
