import Dalston.Engines.TranscriptMerge
import Dalston.Engines.VadChunks

/-!
# Transcription in chunks, with a backoff

Long audio is cut into chunks at speech boundaries, and the engine transcribes them one by
one. If it runs out of memory, the cap on the length of a chunk is halved, down to a floor,
and the audio is cut again from the start of the chunk that failed. The transcripts of all
passes are merged in the end.

## Implementation notes

The engine may answer each of its calls in its own way: an answer depends on the number of
the call and on the chunk. The calls are logged with the cap in force, which the source does
not keep; the files of the chunks and the telemetry are left out. The loops may take a
number of rounds.
-/

namespace Dalston.Engines

open Foundation

def MIN_CHUNK_FLOOR_S : Rat := 60

/-- What becomes of a chunk: it is transcribed, the engine runs out of memory, or it fails. -/
inductive Attempt
  | transcribed (transcript : Transcript)
  | outOfMemory
  | failed

/-- The answer of `transcribe_audio` to a call, given by the number of the call. -/
abbrev ChunkEngine := Nat → AudioChunk → Attempt

/-- A call of the engine, with the cap that the chunk was cut with. -/
structure Call where
  chunk : AudioChunk
  maxChunk : Rat
  attempt : Attempt

/-- The transcript and the offset that are kept of a call. -/
def Call.result? (call : Call) : Option (Transcript × Rat) :=
  match call.attempt with
  | .transcribed transcript => some (transcript, call.chunk.offset)
  | _ => none

/-- The variables of the loop. -/
structure Backoff where
  calls : List Call
  completedTranscripts : List (Transcript × Rat)
  currentMax : Rat
  remainingStart : Rat
  totalChunks : Nat
  cachedCap : Option Rat

/-- The result of a run. -/
structure ChunkedRun where
  transcript : Transcript
  chunkCount : Nat
  finalMax : Rat

inductive ChunkedError
  | transcription
  | floorReached
  | merging (e : MergeError)

section Loop

def Backoff.start (maxChunk : Rat) (cachedCap : Option Rat) : Backoff where
  calls := []
  completedTranscripts := []
  currentMax := maxChunk
  remainingStart := 0
  totalChunks := 0
  cachedCap := cachedCap

def Backoff.call (st : Backoff) (c : AudioChunk) (attempt : Attempt) : Backoff :=
  { st with calls := st.calls ++ [⟨c, st.currentMax, attempt⟩] }

def Backoff.complete (st : Backoff) (transcript : Transcript) (offset : Rat) : Backoff :=
  { st with
    completedTranscripts := st.completedTranscripts ++ [(transcript, offset)]
    totalChunks := st.totalChunks + 1 }

/-- The next pass cuts from the chunk that failed. -/
def Backoff.shrink (st : Backoff) (newMax : Rat) (c : AudioChunk) : Backoff :=
  { st with currentMax := newMax, remainingStart := c.offset, cachedCap := some newMax }

/-- How a pass over the chunks ends. -/
inductive PassEnd
  | finished
  | failed
  | outOfMemory (chunk : AudioChunk)

/-- The loop over the chunks of a pass. -/
def transcribeChunks (engine : ChunkEngine) : Backoff → List AudioChunk → Backoff × PassEnd
  | st, [] => (st, .finished)
  | st, c :: rest =>
      match engine st.calls.length c with
      | .transcribed transcript =>
          transcribeChunks engine
            ((st.call c (.transcribed transcript)).complete transcript c.offset) rest
      | .outOfMemory => (st.call c .outOfMemory, .outOfMemory c)
      | .failed => (st.call c .failed, .failed)

/-- What follows a pass. The cap is not lowered below the floor, nor raised to it. -/
def afterPass {A : Type} (again : Backoff → Option (Backoff × Except ChunkedError A))
    (done : Backoff → Except ChunkedError A) :
    Backoff × PassEnd → Option (Backoff × Except ChunkedError A)
  | (st, .finished) => some (st, done st)
  | (st, .failed) => some (st, .error .transcription)
  | (st, .outOfMemory c) =>
      let newMax := max (st.currentMax / 2) MIN_CHUNK_FLOOR_S
      if st.currentMax ≤ newMax then some (st, .error .floorReached)
      else again (st.shrink newMax c)

def mergeCompleted (engineId : String) (st : Backoff) : Except ChunkedError ChunkedRun :=
  match mergeChunkTranscripts engineId st.completedTranscripts with
  | .ok transcript => .ok ⟨transcript, st.totalChunks, st.currentMax⟩
  | .error e => .error (.merging e)

/-- The loop over the passes. A pass without chunks ends it as well. -/
def backoffLoop (engineId : String) (speech : DetectedSpeech) (engine : ChunkEngine) :
    Nat → Backoff → Option (Backoff × Except ChunkedError ChunkedRun)
  | 0, _ => none
  | rounds + 1, st =>
      (split speech st.currentMax st.remainingStart rounds).bind fun chunks =>
        afterPass (backoffLoop engineId speech engine rounds) (mergeCompleted engineId)
          (transcribeChunks engine st chunks)

/-- `_transcribe_chunks_with_backoff`. -/
def transcribeChunksWithBackoff (engineId : String) (speech : DetectedSpeech)
    (engine : ChunkEngine) (maxChunk : Rat) (cachedCap : Option Rat) (rounds : Nat) :
    Option (Backoff × Except ChunkedError ChunkedRun) :=
  backoffLoop engineId speech engine rounds (Backoff.start maxChunk cachedCap)

end Loop

section Calls

variable {engine : ChunkEngine} {st st' st'' : Backoff} {c : AudioChunk} {transcript : Transcript}
  {done done' chunks : List AudioChunk}

/-- The chunks that have been transcribed, with the caps they were cut with. -/
def Backoff.transcribed (st : Backoff) : List (AudioChunk × Rat) :=
  st.calls.filterMap fun call => call.result?.map fun _ => (call.chunk, call.maxChunk)

/-- The log holds the answers of the engine, and the results are those of the log. -/
structure Logged (engine : ChunkEngine) (st : Backoff) : Prop where
  answered : ∀ i call, st.calls[i]? = some call → call.attempt = engine i call.chunk
  completed : st.completedTranscripts = st.calls.filterMap Call.result?
  counted : st.totalChunks = st.completedTranscripts.length

/-- What the calls of a pass do: some chunks have been transcribed. -/
structure Passed (engine : ChunkEngine) (st st' : Backoff) (done : List AudioChunk) : Prop where
  logged : Logged engine st → Logged engine st'
  calls_subset : st.calls ⊆ st'.calls
  currentMax_eq : st'.currentMax = st.currentMax
  remainingStart_eq : st'.remainingStart = st.remainingStart
  transcribed_eq : st'.transcribed = st.transcribed ++ done.map (·, st.currentMax)

theorem Passed.trans (h : Passed engine st st' done) (h' : Passed engine st' st'' done') :
    Passed engine st st'' (done ++ done') where
  logged hlogged := h'.logged (h.logged hlogged)
  calls_subset := List.Subset.trans h.calls_subset h'.calls_subset
  currentMax_eq := h'.currentMax_eq.trans h.currentMax_eq
  remainingStart_eq := h'.remainingStart_eq.trans h.remainingStart_eq
  transcribed_eq := by
    rw [h'.transcribed_eq, h.transcribed_eq, h.currentMax_eq, List.map_append, List.append_assoc]

/-- Each transcript is that of one chunk. -/
theorem length_transcribed (st : Backoff) :
    st.transcribed.length = (st.calls.filterMap Call.result?).length := by
  rw [Backoff.transcribed]
  induction st.calls with
  | nil => rfl
  | cons call calls ih =>
      cases hresult : call.result? with
      | none => simp [hresult, ih]
      | some kept => simp [hresult, ih]

theorem answered_call (hlogged : Logged engine st) (i : Nat) (call : Call)
    (h : (st.call c (engine st.calls.length c)).calls[i]? = some call) :
    call.attempt = engine i call.chunk := by
  rcases lt_trichotomy i st.calls.length with hlt | rfl | hgt
  · exact hlogged.answered i call ((List.getElem?_append_left hlt).symm.trans h)
  · have hcall : ⟨c, st.currentMax, engine st.calls.length c⟩ = call := by
      simpa [Backoff.call] using h
    rw [← hcall]
  · have hnone : (st.call c (engine st.calls.length c)).calls[i]? = none :=
      List.getElem?_eq_none (by simpa [Backoff.call] using hgt)
    rw [hnone] at h
    cases h

/-- A chunk is transcribed, and its result is kept. -/
theorem passed_transcribed (h : engine st.calls.length c = .transcribed transcript) :
    Passed engine st ((st.call c (.transcribed transcript)).complete transcript c.offset) [c] where
  logged hlogged :=
    { answered := by
        intro i call hcall
        rw [← h] at hcall
        exact answered_call hlogged i call hcall
      completed := by
        simp [Backoff.complete, Backoff.call, hlogged.completed, Call.result?]
      counted := by
        simp [Backoff.complete, Backoff.call, hlogged.counted] }
  calls_subset := List.subset_append_left _ _
  currentMax_eq := rfl
  remainingStart_eq := rfl
  transcribed_eq := by
    simp [Backoff.transcribed, Backoff.complete, Backoff.call, Call.result?]

/-- A call without a transcript is logged only. -/
theorem passed_call (engine : ChunkEngine) (st : Backoff) (c : AudioChunk)
    (h : ∀ transcript, engine st.calls.length c ≠ .transcribed transcript) :
    Passed engine st (st.call c (engine st.calls.length c)) [] := by
  have hresult : Call.result? ⟨c, st.currentMax, engine st.calls.length c⟩ = none := by
    cases hattempt : engine st.calls.length c with
    | transcribed transcript => exact absurd hattempt (h transcript)
    | outOfMemory => rfl
    | failed => rfl
  refine ⟨fun hlogged => ⟨answered_call hlogged, ?_, hlogged.counted⟩,
    List.subset_append_left _ _, rfl, rfl, ?_⟩
  · simp [Backoff.call, hlogged.completed, hresult]
  · simp [Backoff.transcribed, Backoff.call, hresult]

/-- The chunks transcribed in a pass are all of them, or those before the one at which the
engine ran out of memory. -/
theorem transcribeChunks_passed (engine : ChunkEngine) (st : Backoff) (chunks : List AudioChunk) :
    ∃ st' done, Passed engine st st' done ∧
      ((transcribeChunks engine st chunks = (st', .finished) ∧ chunks = done) ∨
        transcribeChunks engine st chunks = (st', .failed) ∨
        ∃ c rest, transcribeChunks engine st chunks = (st', .outOfMemory c) ∧
          chunks = done ++ c :: rest ∧
          ∃ call ∈ st'.calls,
            call.attempt = .outOfMemory ∧ call.chunk = c ∧ call.maxChunk = st.currentMax) := by
  induction chunks generalizing st with
  | nil =>
      refine ⟨st, [], ⟨id, List.Subset.refl _, rfl, rfl, by simp⟩, Or.inl ⟨rfl, rfl⟩⟩
  | cons c rest ih =>
      cases hattempt : engine st.calls.length c with
      | transcribed transcript =>
          have hstep := passed_transcribed hattempt
          obtain ⟨st', done, hpassed, hend⟩ :=
            ih ((st.call c (.transcribed transcript)).complete transcript c.offset)
          refine ⟨st', c :: done, hstep.trans hpassed, ?_⟩
          simp only [transcribeChunks, hattempt]
          rcases hend with ⟨heq, rfl⟩ | heq | ⟨d, rest', heq, rfl, hcall⟩
          · exact Or.inl ⟨heq, rfl⟩
          · exact Or.inr (Or.inl heq)
          · exact Or.inr (Or.inr ⟨d, rest', heq, rfl, hcall⟩)
      | outOfMemory =>
          have hstep := passed_call engine st c (by rw [hattempt]; exact fun _ h => nomatch h)
          rw [hattempt] at hstep
          refine ⟨_, [], hstep, Or.inr (Or.inr ⟨c, rest, ?_, rfl, ?_⟩)⟩
          · simp only [transcribeChunks, hattempt]
          · exact ⟨⟨c, st.currentMax, .outOfMemory⟩, by simp [Backoff.call], rfl, rfl, rfl⟩
      | failed =>
          have hstep := passed_call engine st c (by rw [hattempt]; exact fun _ h => nomatch h)
          rw [hattempt] at hstep
          refine ⟨_, [], hstep, Or.inr (Or.inl ?_)⟩
          simp only [transcribeChunks, hattempt]

end Calls

section Progress

/-- Every cap in force at a call of the engine has cut the speech at samples. -/
def Backoff.AtSamples (speech : DetectedSpeech) (st : Backoff) : Prop :=
  ∀ call ∈ st.calls, CutsAtSamples call.maxChunk (speechSegments speech)

variable {engine : ChunkEngine} {speech : DetectedSpeech} {st st' : Backoff} {c : AudioChunk}
  {done chunks rest : List AudioChunk} {n : Nat}

/-- The sample is in a chunk that has been transcribed. -/
def Backoff.Holds (st : Backoff) (n : Nat) : Prop := ∃ c ∈ st.transcribed, c.1.Holds n

/-- The sample comes right after a resume boundary: the start of the audio, or of a chunk for
which there was not enough memory. -/
def Backoff.Skipped (st : Backoff) (n : Nat) : Prop :=
  ∃ resume : Rat,
    (resume = 0 ∨ ∃ call ∈ st.calls, call.attempt = .outOfMemory ∧ call.chunk.offset = resume) ∧
      sampleAt resume ≤ n ∧ (n : Rat) / SAMPLE_RATE < resume + 1 / 1000

theorem Passed.holds (h : Passed engine st st' done) (hn : st.Holds n ∨ st.Skipped n) :
    st'.Holds n ∨ st'.Skipped n := by
  rcases hn with ⟨c, hc, hcn⟩ | ⟨resume, hresume, hrange⟩
  · refine Or.inl ⟨c, ?_, hcn⟩
    rw [h.transcribed_eq]
    exact List.mem_append_left _ hc
  · refine Or.inr ⟨resume, hresume.imp_right ?_, hrange⟩
    rintro ⟨call, hcall, hmemory⟩
    exact ⟨call, h.calls_subset hcall, hmemory⟩

/-- The chunks transcribed are well cut and in order. -/
structure InOrder (speech : DetectedSpeech) (st : Backoff) : Prop where
  wellCut : ∀ c ∈ st.transcribed, WellCut speech c.2 c.1
  ordered : st.transcribed.Pairwise fun c d => c.1.stop ≤ d.1.offset

/-- Between two passes, the chunks transcribed lie before the resume boundary and hold the speech
up to it. -/
structure Progress (engine : ChunkEngine) (speech : DetectedSpeech) (st : Backoff) : Prop where
  logged : Logged engine st
  inOrder : InOrder speech st
  before : ∀ c ∈ st.transcribed, c.1.stop ≤ st.remainingStart
  resumed : st.remainingStart = 0 ∨ ∃ call ∈ st.calls, call.attempt = .outOfMemory ∧
    call.chunk.offset = st.remainingStart
  holds : ∀ n, speech.Holds n → (n : Int) < sampleAt st.remainingStart →
    st.Holds n ∨ st.Skipped n
  within : st.AtSamples speech →
    Whole st.remainingStart ∧ ∀ c ∈ st.transcribed, c.1.duration ≤ c.2

theorem progress_start (engine : ChunkEngine) (speech : DetectedSpeech) (maxChunk : Rat)
    (cachedCap : Option Rat) : Progress engine speech (Backoff.start maxChunk cachedCap) where
  logged := ⟨fun i call h => by simp [Backoff.start] at h, rfl, rfl⟩
  inOrder := ⟨fun c hc => absurd hc List.not_mem_nil, List.Pairwise.nil⟩
  before := fun c hc => absurd hc List.not_mem_nil
  resumed := Or.inl rfl
  holds := by
    intro n _ hn
    have hzero : (n : Int) < sampleAt 0 := hn
    exact absurd (sampleAt_zero ▸ hzero) (not_lt.mpr (Int.natCast_nonneg n))
  within := fun _ => ⟨by simp [Whole, Backoff.start], fun c hc => absurd hc List.not_mem_nil⟩

/-- What a pass keeps: the chunks transcribed in it come after those before it. -/
theorem Progress.inOrder_pass (h : Progress engine speech st)
    (hcut : Cut speech st.currentMax st.remainingStart (done ++ rest))
    (hpassed : Passed engine st st' done) : InOrder speech st' := by
  have hdone : ∀ c ∈ done, c ∈ done ++ rest := fun c hc => List.mem_append_left _ hc
  constructor
  · rw [hpassed.transcribed_eq]
    intro c hc
    rcases List.mem_append.mp hc with hc | hc
    · exact h.inOrder.wellCut c hc
    · obtain ⟨d, hd, rfl⟩ := List.mem_map.mp hc
      exact hcut.wellCut d (hdone d hd)
  · rw [hpassed.transcribed_eq, List.pairwise_append]
    refine ⟨h.inOrder.ordered, ?_, ?_⟩
    · exact List.pairwise_map.mpr (List.pairwise_append.mp hcut.ordered).1
    · intro c hc later hlater
      obtain ⟨d, hd, rfl⟩ := List.mem_map.mp hlater
      exact (h.before c hc).trans (hcut.resumed d (hdone d hd))

/-- Where the cuts and the resume boundary fall on samples, the chunks of a pass do too. -/
theorem Progress.within_pass (h : Progress engine speech st)
    (hcut : Cut speech st.currentMax st.remainingStart (done ++ rest))
    (hpassed : Passed engine st st' done) (hat : st'.AtSamples speech) :
    ((∃ call ∈ st'.calls, call.maxChunk = st.currentMax) → ∀ c ∈ done ++ rest, Whole c.offset) ∧
      ∀ c ∈ st'.transcribed, c.1.duration ≤ c.2 := by
  obtain ⟨hresume, hbefore⟩ := h.within fun call hcall => hat call (hpassed.calls_subset hcall)
  have hchunks : (∃ call ∈ st'.calls, call.maxChunk = st.currentMax) →
      ∀ c ∈ done ++ rest, Whole c.offset ∧ Whole c.stop := by
    rintro ⟨call, hcall, hcap⟩
    exact hcut.whole (hcap ▸ hat call hcall) hresume
  refine ⟨fun hcall c hc => (hchunks hcall c hc).1, fun c hc => ?_⟩
  -- the chunk was transcribed at a call
  obtain ⟨call, hcall, hkept⟩ := List.mem_filterMap.mp hc
  obtain ⟨kept, -, rfl⟩ := Option.map_eq_some_iff.mp hkept
  rw [hpassed.transcribed_eq] at hc
  rcases List.mem_append.mp hc with hc | hc
  · exact hbefore _ hc
  · obtain ⟨d, hd, heq⟩ := List.mem_map.mp hc
    obtain ⟨rfl, hcap⟩ := Prod.mk.inj heq
    have hmem := List.mem_append_left rest hd
    obtain ⟨hoffset, hstop⟩ := hchunks ⟨call, hcall, hcap.symm⟩ _ hmem
    exact hcap ▸ (hcut.wellCut _ hmem).duration_le_cap hoffset hstop

/-- The speech that is not in the chunks left has been transcribed. -/
theorem Progress.holds_pass (h : Progress engine speech st)
    (hcut : Cut speech st.currentMax st.remainingStart (done ++ rest))
    (hpassed : Passed engine st st' done) (hn : speech.Holds n) (hrest : ∀ d ∈ rest, ¬ d.Holds n) :
    st'.Holds n ∨ st'.Skipped n := by
  rcases lt_or_ge (n : Int) (sampleAt st.remainingStart) with hbefore | hafter
  · exact hpassed.holds (h.holds n hn hbefore)
  · rcases hcut.holds n hn hafter with ⟨c, hc, hcn⟩ | hskipped
    · left
      rcases List.mem_append.mp hc with hc | hc
      · refine ⟨(c, st.currentMax), ?_, hcn⟩
        rw [hpassed.transcribed_eq]
        exact List.mem_append_right _ (List.mem_map_of_mem hc)
      · exact absurd hcn (hrest c hc)
    · exact hpassed.holds (Or.inr ⟨st.remainingStart, h.resumed, hafter, hskipped⟩)

/-- After a pass that ran out of memory, the next one begins with the chunk that failed. -/
theorem Progress.shrink (h : Progress engine speech st)
    (hcut : Cut speech st.currentMax st.remainingStart (done ++ c :: rest))
    (hpassed : Passed engine st st' done)
    (newMax : Rat) (hcall : ∃ call ∈ st'.calls,
      call.attempt = .outOfMemory ∧ call.chunk = c ∧ call.maxChunk = st.currentMax) :
    Progress engine speech (st'.shrink newMax c) := by
  obtain ⟨hordered, hrest, hbefore⟩ := List.pairwise_append.mp hcut.ordered
  have hlogged := hpassed.logged h.logged
  refine ⟨⟨hlogged.answered, hlogged.completed, hlogged.counted⟩,
    ⟨(h.inOrder_pass hcut hpassed).wellCut, (h.inOrder_pass hcut hpassed).ordered⟩, ?_, ?_, ?_,
    ?_⟩
  · intro kept hkept
    have hmem : kept ∈ st'.transcribed := hkept
    rw [hpassed.transcribed_eq] at hmem
    rcases List.mem_append.mp hmem with hold | hnew
    · exact (h.before kept hold).trans (hcut.resumed c (by simp))
    · obtain ⟨d, hd, rfl⟩ := List.mem_map.mp hnew
      exact hbefore d hd c List.mem_cons_self
  · obtain ⟨call, hcall, hmemory, rfl, -⟩ := hcall
    exact Or.inr ⟨call, hcall, hmemory, rfl⟩
  · intro n hn hbound
    have hlt : (n : Int) < sampleAt c.offset := hbound
    have hstart := (hcut.wellCut c (by simp)).startSample
    have hkept : st'.Holds n ∨ st'.Skipped n := by
      refine h.holds_pass hcut hpassed hn fun d hd hdn => ?_
      rcases List.mem_cons.mp hd with rfl | hd
      · exact absurd hdn.1 (not_le.mpr (hstart ▸ hlt))
      -- the chunks after the one that failed begin after its samples
      have hlater := (hcut.wellCut c (by simp)).endSample_le (hcut.wellCut d (by simp [hd]))
        ((List.pairwise_cons.mp hrest).1 d hd)
      have hlen := (hcut.wellCut c (by simp)).nonempty
      have hge := hlen.trans_le (hlater.trans hdn.1)
      rw [hstart] at hge
      exact lt_asymm hge hlt
    exact hkept
  · intro hat
    obtain ⟨hoffsets, hdurations⟩ := h.within_pass hcut hpassed hat
    obtain ⟨call, hcall, -, -, hcap⟩ := hcall
    exact ⟨hoffsets ⟨call, hcall, hcap⟩ c (by simp), hdurations⟩

end Progress

section Runs

variable {engine : ChunkEngine} {speech : DetectedSpeech} {st : Backoff} {maxChunk : Rat}

/-- A run that has gone over all of the speech: the engine has given the answers of the log, the
chunks transcribed are well cut, in order and disjoint, and together hold the speech. -/
structure Transcribed (engine : ChunkEngine) (speech : DetectedSpeech) (st : Backoff) : Prop where
  logged : Logged engine st
  wellCut : ∀ c ∈ st.transcribed, WellCut speech c.2 c.1 ∧
    c.1.duration ≤ c.2 + 1 / SAMPLE_RATE
  ordered : st.transcribed.Pairwise fun c d =>
    c.1.stop ≤ d.1.offset ∧ c.1.endSample ≤ d.1.startSample
  holds : ∀ n, speech.Holds n → st.Holds n ∨ st.Skipped n
  within : st.AtSamples speech → ∀ c ∈ st.transcribed, c.1.duration ≤ c.2

/-- A run that merges has finished a pass. -/
theorem Progress.transcribed {st' : Backoff} {chunks : List AudioChunk}
    (h : Progress engine speech st)
    (hcut : Cut speech st.currentMax st.remainingStart chunks)
    (hpassed : Passed engine st st' chunks) : Transcribed engine speech st' := by
  rw [← List.append_nil chunks] at hcut
  obtain ⟨hwellCut, hordered⟩ := h.inOrder_pass hcut hpassed
  refine ⟨hpassed.logged h.logged, fun c hc => ⟨hwellCut c hc, (hwellCut c hc).duration_le⟩, ?_, ?_,
    fun hat => (h.within_pass hcut hpassed hat).2⟩
  · refine hordered.imp_of_mem fun {c d} hc hd hle => ⟨hle, ?_⟩
    exact (hwellCut c hc).endSample_le (hwellCut d hd) hle
  · intro n hn
    exact h.holds_pass hcut hpassed hn fun d hd => absurd hd List.not_mem_nil

theorem mergeCompleted_eq_ok {engineId : String} {run : ChunkedRun}
    (h : mergeCompleted engineId st = .ok run) :
    mergeChunkTranscripts engineId st.completedTranscripts = .ok run.transcript ∧
      run.chunkCount = st.totalChunks := by
  simp only [mergeCompleted] at h
  split at h
  next transcript hmerge =>
    cases h
    exact ⟨hmerge, rfl⟩
  next => cases h

/-- The loop ends, and if it ends well it merges the transcripts of all of the speech. -/
def Ends (engineId : String) (speech : DetectedSpeech) (engine : ChunkEngine) (st : Backoff) :
    Prop :=
  ∃ st' result, Returns (fun rounds => backoffLoop engineId speech engine rounds st)
      (st', result) ∧
    ∀ run, result = .ok run → mergeCompleted engineId st' = .ok run ∧ Transcribed engine speech st'

/-- One pass ends the loop, or lowers the cap. -/
theorem backoffLoop_pass (engineId : String) (h : Progress engine speech st)
    (hcap : 0 < st.currentMax) :
    Ends engineId speech engine st ∨
      ∃ next : Backoff, Progress engine speech next ∧
        next.currentMax = max (st.currentMax / 2) MIN_CHUNK_FLOOR_S ∧
        next.currentMax < st.currentMax ∧
        (Ends engineId speech engine next → Ends engineId speech engine st) := by
  obtain ⟨chunks, hsplit, hcut⟩ := split_returns speech st.remainingStart hcap
  obtain ⟨st', done, hpassed, hend⟩ := transcribeChunks_passed engine st chunks
  have hstep : ∀ {result}, Returns (fun rounds => afterPass
        (backoffLoop engineId speech engine rounds) (mergeCompleted engineId)
        (transcribeChunks engine st chunks)) result →
      Returns (fun rounds => backoffLoop engineId speech engine rounds st) result := by
    intro result hresult
    exact returns_succ.mp (hsplit.bind (fun chunks rounds => afterPass
      (backoffLoop engineId speech engine rounds) (mergeCompleted engineId)
      (transcribeChunks engine st chunks)) hresult)
  rcases hend with ⟨heq, rfl⟩ | heq | ⟨c, rest, heq, rfl, hcall⟩
  · refine Or.inl ⟨st', mergeCompleted engineId st', hstep ?_, ?_⟩
    · rw [heq]
      exact returns_const _
    · intro run hrun
      exact ⟨hrun, h.transcribed hcut hpassed⟩
  · refine Or.inl ⟨st', .error .transcription, hstep ?_, fun run hrun => nomatch hrun⟩
    rw [heq]
    exact returns_const _
  · rw [heq] at hstep
    simp only [afterPass, hpassed.currentMax_eq] at hstep
    rcases le_or_gt st.currentMax (max (st.currentMax / 2) MIN_CHUNK_FLOOR_S) with hfloor | hlower
    · refine Or.inl ⟨st', .error .floorReached, hstep ?_, fun run hrun => nomatch hrun⟩
      simp only [if_pos hfloor]
      exact returns_const _
    · refine Or.inr ⟨_, h.shrink hcut hpassed _ hcall, rfl, hlower, ?_⟩
      rintro ⟨last, result, hreturns, hresult⟩
      refine ⟨last, result, hstep ?_, hresult⟩
      simpa only [if_neg (not_le.mpr hlower)] using hreturns

/-- The cap falls to the floor in as many halvings as it takes. -/
theorem backoffLoop_ends (engineId : String) (halvings : Nat) (h : Progress engine speech st)
    (hcap : 0 < st.currentMax) (hhalvings : st.currentMax ≤ MIN_CHUNK_FLOOR_S * 2 ^ halvings) :
    Ends engineId speech engine st := by
  have hfloor : (0 : Rat) < MIN_CHUNK_FLOOR_S := by norm_num [MIN_CHUNK_FLOOR_S]
  induction halvings generalizing st with
  | zero =>
      rcases backoffLoop_pass engineId h hcap with hends | ⟨next, -, hmax, hlower, -⟩
      · exact hends
      · rw [pow_zero, mul_one] at hhalvings
        rw [hmax] at hlower
        exact absurd (hhalvings.trans (le_max_right _ _)) (not_le.mpr hlower)
  | succ halvings ih =>
      rcases backoffLoop_pass engineId h hcap with hends | ⟨next, hnext, hmax, -, hends⟩
      · exact hends
      · refine hends (ih hnext ?_ ?_)
        · rw [hmax]
          exact hfloor.trans_le (le_max_right _ _)
        · rw [hmax]
          refine max_le ?_ ?_
          · rw [pow_succ] at hhalvings
            linarith
          · exact le_mul_of_one_le_right hfloor.le (one_le_pow₀ (by norm_num))

/-- Transcription in chunks ends with every cap and every engine. If it ends well, the engine has
transcribed chunks that are in order and disjoint, each no longer than the cap in force if every
cap has cut the speech at samples, and by one sample at most in any case. They hold every sample
of speech, but for a millisecond after each resume boundary, and the transcript merges theirs,
each once and in order. -/
theorem transcribeChunksWithBackoff_transcribed (engineId : String) (speech : DetectedSpeech)
    (engine : ChunkEngine) (cachedCap : Option Rat) (hcap : 0 < maxChunk) :
    ∃ st result, Returns (transcribeChunksWithBackoff engineId speech engine maxChunk cachedCap)
        (st, result) ∧
      ∀ run, result = .ok run →
        Transcribed engine speech st ∧
          mergeChunkTranscripts engineId (st.calls.filterMap Call.result?) = .ok run.transcript ∧
          run.chunkCount = st.transcribed.length := by
  obtain ⟨halvings, hhalvings⟩ : ∃ halvings : Nat, maxChunk ≤ MIN_CHUNK_FLOOR_S * 2 ^ halvings := by
    obtain ⟨halvings, hpow⟩ := pow_unbounded_of_one_lt maxChunk (one_lt_two (α := Rat))
    refine ⟨halvings, hpow.le.trans (le_mul_of_one_le_left (by positivity) ?_)⟩
    norm_num [MIN_CHUNK_FLOOR_S]
  obtain ⟨st, result, hreturns, hresult⟩ := backoffLoop_ends engineId halvings
    (progress_start engine speech maxChunk cachedCap) hcap hhalvings
  refine ⟨st, result, hreturns, fun run hrun => ?_⟩
  obtain ⟨hmerged, htranscribed⟩ := hresult run hrun
  obtain ⟨hmerge, hcount⟩ := mergeCompleted_eq_ok hmerged
  refine ⟨htranscribed, ?_, ?_⟩
  · rw [← htranscribed.logged.completed]
    exact hmerge
  · rw [hcount, htranscribed.logged.counted, htranscribed.logged.completed, length_transcribed]

/-- A transcript without segments. -/
def quietTranscript : Transcript :=
  buildTranscript [] [] "en" "faster-whisper" none .unknown none []

/-- Two minutes of speech, with an engine that runs out of memory once. -/
theorem twoMinutes_transcribed :
    ∃ st result, Returns (transcribeChunksWithBackoff "faster-whisper"
        ⟨1920000, [(16000, 800000), (810000, 1920000)], by simp⟩
        (fun i _ => if i = 0 then .outOfMemory else .transcribed quietTranscript) 120 none)
        (st, result) ∧
      ∀ run, result = .ok run →
        Transcribed (fun i _ => if i = 0 then .outOfMemory else .transcribed quietTranscript)
            ⟨1920000, [(16000, 800000), (810000, 1920000)], by simp⟩ st ∧
          mergeChunkTranscripts "faster-whisper" (st.calls.filterMap Call.result?) =
            .ok run.transcript ∧
          run.chunkCount = st.transcribed.length :=
  transcribeChunksWithBackoff_transcribed _ _ _ none (by norm_num)

/-- Speech without a pause, one sample longer than two hundred seconds. -/
def longSpeech : DetectedSpeech := ⟨3200001, [(0, 3200001)], List.pairwise_singleton _ _⟩

theorem longSpeech_split (rounds : Nat) :
    split longSpeech (100 + 1 / 32000) 0 (rounds + 3) =
      some [⟨0, 100 + 1 / 32000, 0, 1600000⟩,
        ⟨100 + 1 / 32000, 200 + 1 / 16000, 1600000, 3200001⟩] := by
  have hcapped : cappedSegments (100 + 1 / 32000) (speechSegments longSpeech) (rounds + 3) =
      some [(0, 100 + 1 / 32000), (100 + 1 / 32000, 200 + 1 / 16000)] := by
    norm_num [cappedSegments, speechSegments, longSpeech, SAMPLE_RATE, capSegment, forceSplit]
  rw [split, hcapped, Option.map_some]
  congr 1
  decide +kernel

/-- With a cap of a hundred seconds and half a sample, the audio of a chunk is half a sample longer
than the cap. -/
theorem halfSample_longer :
    ∃ st run, Returns (transcribeChunksWithBackoff "faster-whisper" longSpeech
        (fun _ _ => .transcribed quietTranscript) (100 + 1 / 32000) none) (st, .ok run) ∧
      ∃ c ∈ st.transcribed, c.2 < c.1.duration := by
  let engine : ChunkEngine := fun _ _ => .transcribed quietTranscript
  let chunks : List AudioChunk := [⟨0, 100 + 1 / 32000, 0, 1600000⟩,
    ⟨100 + 1 / 32000, 200 + 1 / 16000, 1600000, 3200001⟩]
  let st : Backoff := (transcribeChunks engine (Backoff.start (100 + 1 / 32000) none) chunks).1
  obtain ⟨run, hrun⟩ : ∃ run, mergeCompleted "faster-whisper" st = .ok run := ⟨_, rfl⟩
  refine ⟨st, run, ⟨4, fun rounds hrounds => ?_⟩, ?_⟩
  · obtain ⟨rounds, rfl⟩ := Nat.exists_eq_add_of_le' hrounds
    rw [← hrun]
    exact congrArg (fun chunks => chunks.bind fun chunks => afterPass
      (backoffLoop "faster-whisper" longSpeech engine (rounds + 3)) (mergeCompleted "faster-whisper")
      (transcribeChunks engine (Backoff.start (100 + 1 / 32000) none) chunks))
      (longSpeech_split rounds)
  · refine ⟨(⟨100 + 1 / 32000, 200 + 1 / 16000, 1600000, 3200001⟩, 100 + 1 / 32000), ?_, ?_⟩
    · exact List.mem_cons_of_mem _ List.mem_cons_self
    · norm_num [AudioChunk.duration, SAMPLE_RATE]

end Runs

end Dalston.Engines
