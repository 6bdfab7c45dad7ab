import Dalston.Engines.DiarizeMerge
import Dalston.Foundation.Rounds

/-!
# Diarization in chunks

Audio longer than a cap is cut into chunks that overlap, whose diarizations are merged. If
no chunk can be diarized, for want of memory, the cap is halved, down to thirty seconds,
and the audio is diarized again.

## Implementation notes

Times are rationals. What the extraction and the diarization of a chunk do is given for
each attempt and each chunk, and the linking of the speakers is a parameter. The loops may
take a number of rounds, since one of them does not always end.
-/

namespace Dalston.Engines

open Foundation Transcripts

def DEFAULT_OVERLAP_S : Rat := 30

def DEFAULT_MIN_CHUNK_S : Rat := 60

section Boundaries

/-- The loop over the starts of the chunks. -/
def chunkLoop (duration maxChunk overlap minChunk : Rat) : Nat → Rat → Option (List (Rat × Rat))
  | 0, _ => none
  | rounds + 1, start =>
      if start < duration then
        let stop := min (start + maxChunk) duration
        let nextStart := start + (maxChunk - overlap)
        -- a short tail is absorbed
        let stop :=
          if stop < duration ∧ (0 < duration - nextStart ∧ duration - nextStart < minChunk) ∧
              duration - start ≤ maxChunk + minChunk then duration
          else stop
        if duration ≤ stop then some [(start, stop)]
        else (chunkLoop duration maxChunk overlap minChunk rounds nextStart).map ((start, stop) :: ·)
      else some []

/-- `compute_chunk_boundaries`. -/
def computeChunkBoundaries (rounds : Nat) (duration maxChunk overlap minChunk : Rat) :
    Option (List (Rat × Rat)) :=
  if duration ≤ maxChunk then some [(0, duration)]
  else chunkLoop duration maxChunk overlap minChunk rounds 0

end Boundaries

section Attempts

/-- What becomes of a chunk: its audio cannot be extracted, it cannot be diarized, or it is. -/
inductive ChunkRun
  | notExtracted
  | failed
  | diarized (speakers : List String) (turns : List SpeakerTurn)

inductive DiarizeError
  | extraction
  | allChunksFailed
  | pipeline
  | unboundTurns
  deriving DecidableEq

abbrev Diarization := Except DiarizeError (List String × List SpeakerTurn)

/-- The loop over the chunks, which passes over those that fail. -/
def diarizeChunks (run : Nat → ChunkRun) : Nat → List (Rat × Rat) →
    Except DiarizeError (List ChunkResult)
  | _, [] => .ok []
  | i, (start, stop) :: rest =>
      match run i with
      | .notExtracted => .error .extraction
      | .failed => diarizeChunks run (i + 1) rest
      | .diarized speakers turns =>
          (diarizeChunks run (i + 1) rest).map (⟨⟨i, start, stop⟩, speakers, turns⟩ :: ·)

/-- The results of the chunks, merged unless there are none. -/
def mergeResults (linkSpeakers : List ChunkResult → LabelMaps) : List ChunkResult → Diarization
  | [] => .error .allChunksFailed
  | results => .ok (mergeChunks results (linkSpeakers results) DEFAULT_OVERLAP_S)

/-- `run_chunked_diarization`. -/
def runChunkedDiarization (rounds : Nat) (linkSpeakers : List ChunkResult → LabelMaps)
    (run : Nat → ChunkRun) (duration maxChunk : Rat) : Option Diarization :=
  (computeChunkBoundaries rounds duration maxChunk DEFAULT_OVERLAP_S DEFAULT_MIN_CHUNK_S).map
    fun boundaries => diarizeChunks run 0 boundaries >>= mergeResults linkSpeakers

/-- If every chunk has failed with a cap above the floor, the audio is tried again. -/
def afterAttempt (again : Option Diarization) (maxChunk : Rat) : Diarization → Option Diarization
  | .error .allChunksFailed =>
      if maxChunk ≤ 30 then some (.error .allChunksFailed) else again
  | result => some result

/-- The loop that halves the cap. If it is not entered, there are no turns to read. -/
def backoff (linkSpeakers : List ChunkResult → LabelMaps) (runs : Nat → Nat → ChunkRun)
    (duration : Rat) : Nat → Nat → Rat → Option Diarization
  | 0, _, _ => none
  | rounds + 1, attempt, maxChunk =>
      if 30 ≤ maxChunk then
        (runChunkedDiarization rounds linkSpeakers (runs attempt) duration maxChunk).bind
          (afterAttempt
            (backoff linkSpeakers runs duration rounds (attempt + 1) (max 30 (maxChunk / 2)))
            maxChunk)
      else some (.error .unboundTurns)

/-- What becomes of the diarization of the whole audio. -/
inductive SinglePass
  | outOfMemory
  | failed
  | diarized (speakers : List String) (turns : List SpeakerTurn)
  deriving DecidableEq

/-- `process`, apart from the statistics of the turns. -/
def diarize (linkSpeakers : List ChunkResult → LabelMaps) (single : SinglePass)
    (runs : Nat → Nat → ChunkRun) (duration : Rat) (requested : Option Rat) (configured : Rat)
    (rounds : Nat) : Option Diarization :=
  let maxChunk := if requested.getD 0 = 0 then configured else requested.getD 0
  if maxChunk < duration then backoff linkSpeakers runs duration rounds 0 maxChunk
  else
    match single with
    | .diarized speakers turns => some (.ok (speakers, turns))
    | .failed => some (.error .pipeline)
    | .outOfMemory => backoff linkSpeakers runs duration rounds 0 (duration / 2)

end Attempts

section Loop

variable {duration maxChunk overlap minChunk start : Rat}

/-- The chunks from a start on: the rest of the audio is one chunk, or a chunk of the length of
the cap and the chunks after it. -/
inductive ChunksFrom (duration maxChunk overlap minChunk : Rat) : Rat → List (Rat × Rat) → Prop
  | last {start : Rat} (hstart : start < duration)
      (htail : duration - (start + (maxChunk - overlap)) < minChunk) :
      ChunksFrom duration maxChunk overlap minChunk start [(start, duration)]
  | more {start : Rat} {rest : List (Rat × Rat)}
      (htail : minChunk ≤ duration - (start + (maxChunk - overlap)))
      (hrest : ChunksFrom duration maxChunk overlap minChunk (start + (maxChunk - overlap)) rest) :
      ChunksFrom duration maxChunk overlap minChunk start ((start, start + maxChunk) :: rest)

/-- A tail that is short enough ends the loop. -/
theorem chunkLoop_last (hoverlap : 0 ≤ overlap) (hstart : start < duration)
    (htail : duration - (start + (maxChunk - overlap)) < minChunk) (rounds : Nat) :
    chunkLoop duration maxChunk overlap minChunk (rounds + 1) start =
      some [(start, duration)] := by
  rw [chunkLoop, if_pos hstart]
  rcases lt_or_ge (start + maxChunk) duration with hmore | hlast
  · have habsorbed : min (start + maxChunk) duration < duration ∧
        (0 < duration - (start + (maxChunk - overlap)) ∧
          duration - (start + (maxChunk - overlap)) < minChunk) ∧
        duration - start ≤ maxChunk + minChunk :=
      ⟨(min_le_left _ _).trans_lt hmore, ⟨by linarith, htail⟩, by linarith⟩
    simp only [if_pos habsorbed, le_refl, if_true]
  · simp only [min_eq_right hlast, lt_self_iff_false, false_and, if_false, le_refl, if_true]

/-- A longer tail is cut again. -/
theorem chunkLoop_more (hoverlap : 0 ≤ overlap) (hmin : overlap < minChunk)
    (hcap : overlap ≤ maxChunk)
    (htail : minChunk ≤ duration - (start + (maxChunk - overlap))) (rounds : Nat) :
    chunkLoop duration maxChunk overlap minChunk (rounds + 1) start =
      (chunkLoop duration maxChunk overlap minChunk rounds (start + (maxChunk - overlap))).map
        ((start, start + maxChunk) :: ·) := by
  have hmore : start + maxChunk < duration := by linarith
  have hkept : ¬ (start + maxChunk < duration ∧
      (0 < duration - (start + (maxChunk - overlap)) ∧
        duration - (start + (maxChunk - overlap)) < minChunk) ∧
      duration - start ≤ maxChunk + minChunk) := fun h => absurd h.2.1.2 (not_lt.mpr htail)
  rw [chunkLoop, if_pos (by linarith)]
  simp only [min_eq_left hmore.le, if_neg hkept, if_neg (not_le.mpr hmore)]

/-- With a cap above the overlap the loop ends, by induction on the steps left. -/
theorem chunkLoop_returns (minChunk : Rat) (hoverlap : 0 ≤ overlap) (hmin : overlap < minChunk)
    (hcap : overlap < maxChunk) (steps : Nat) (hstart : start < duration)
    (hsteps : duration ≤ start + steps * (maxChunk - overlap)) :
    ∃ chunks, ChunksFrom duration maxChunk overlap minChunk start chunks ∧
      Returns (fun rounds => chunkLoop duration maxChunk overlap minChunk rounds start) chunks := by
  induction steps generalizing start with
  | zero =>
      rw [Nat.cast_zero, zero_mul, add_zero] at hsteps
      exact absurd hstart (not_lt.mpr hsteps)
  | succ steps ih =>
      rcases lt_or_ge (duration - (start + (maxChunk - overlap))) minChunk with htail | htail
      · refine ⟨_, .last hstart htail, returns_succ.mp ?_⟩
        exact (returns_const _).congr fun rounds => chunkLoop_last hoverlap hstart htail rounds
      · have hnext : start + (maxChunk - overlap) < duration := by linarith
        have hleft : duration ≤ start + (maxChunk - overlap) + steps * (maxChunk - overlap) := by
          push_cast at hsteps
          linarith
        obtain ⟨chunks, hchunks, hreturns⟩ := ih hnext hleft
        refine ⟨_, .more htail hchunks, returns_succ.mp ?_⟩
        exact (hreturns.map _).congr fun rounds =>
          chunkLoop_more hoverlap hmin hcap.le htail rounds

/-- What the loop gives are the chunks from its start on. -/
theorem chunksFrom_of_chunkLoop (hoverlap : 0 ≤ overlap) (hmin : overlap < minChunk)
    (hcap : overlap ≤ maxChunk) {rounds : Nat} {chunks : List (Rat × Rat)}
    (hstart : start < duration)
    (h : chunkLoop duration maxChunk overlap minChunk rounds start = some chunks) :
    ChunksFrom duration maxChunk overlap minChunk start chunks := by
  induction rounds generalizing start chunks with
  | zero => cases h
  | succ rounds ih =>
      rcases lt_or_ge (duration - (start + (maxChunk - overlap))) minChunk with htail | htail
      · rw [chunkLoop_last hoverlap hstart htail] at h
        cases h
        exact .last hstart htail
      · rw [chunkLoop_more hoverlap hmin hcap htail, Option.map_eq_some_iff] at h
        obtain ⟨rest, hrest, rfl⟩ := h
        exact .more htail (ih (by linarith) hrest)

/-- There is another chunk as long as the tail is not too short for one. -/
theorem ChunksFrom.lt_length (hcap : overlap ≤ maxChunk) {chunks : List (Rat × Rat)}
    (h : ChunksFrom duration maxChunk overlap minChunk start chunks) (i : Nat) :
    i < chunks.length ↔ i = 0 ∨ start + i * (maxChunk - overlap) + minChunk ≤ duration := by
  have hstep : 0 ≤ maxChunk - overlap := by linarith
  induction h generalizing i with
  | @last start hstart htail =>
      rw [List.length_singleton, Nat.lt_one_iff]
      refine (or_iff_left_of_imp fun hlong => ?_).symm
      by_contra hne
      have hone : (1 : Rat) ≤ i := by exact_mod_cast Nat.one_le_iff_ne_zero.mpr hne
      have hsteps : maxChunk - overlap ≤ i * (maxChunk - overlap) := le_mul_of_one_le_left hstep hone
      linarith
  | @more start rest htail hrest ih =>
      cases i with
      | zero => simp
      | succ i =>
          rw [List.length_cons, Nat.succ_lt_succ_iff]
          refine (ih i).trans ?_
          push_cast
          constructor
          · rintro (rfl | hlong)
            · exact Or.inr (by push_cast; linarith)
            · exact Or.inr (by linarith)
          · rintro (hzero | hlong)
            · exact hzero.elim
            · exact Or.inr (by linarith)

/-- What the chunks of the audio from a start on are to be. -/
structure Chunked (duration maxChunk overlap minChunk start : Rat) (chunks : List (Rat × Rat)) :
    Prop where
  first : chunks.head?.map Prod.fst = some start
  last : chunks.getLast?.map Prod.snd = some duration
  lengths : ∀ c ∈ chunks, c.1 ≤ c.2 ∧ (c.2 - c.1 ≤ maxChunk ∨ c.2 = duration ∧
    duration - (c.1 + (maxChunk - overlap)) < minChunk ∧ c.2 - c.1 ≤ maxChunk + minChunk)
  starts : chunks.Pairwise fun c c' => c.1 < c'.1
  ends : chunks.Pairwise fun c c' => c.2 ≤ c'.2
  overlaps : chunks.IsChain fun c c' => c.2 - c'.1 = overlap
  covers : ∀ x, Covers Prod.fst Prod.snd chunks x ↔ start ≤ x ∧ x ≤ duration

theorem chunked_single (hstart : start ≤ duration)
    (hlength : duration - start ≤ maxChunk ∨
      duration - (start + (maxChunk - overlap)) < minChunk ∧
        duration - start ≤ maxChunk + minChunk) :
    Chunked duration maxChunk overlap minChunk start [(start, duration)] where
  first := rfl
  last := rfl
  lengths c hc := by
    obtain rfl := List.mem_singleton.mp hc
    exact ⟨hstart, hlength.imp_right fun h => ⟨rfl, h⟩⟩
  starts := List.pairwise_singleton _ _
  ends := List.pairwise_singleton _ _
  overlaps := List.IsChain.singleton _
  covers x := by simp

/-- A chunk of the length of the cap before chunks that begin a step later. -/
theorem Chunked.cons (hoverlap : 0 ≤ overlap) (hcap : overlap < maxChunk)
    (hmore : start + maxChunk ≤ duration)
    {rest : List (Rat × Rat)}
    (h : Chunked duration maxChunk overlap minChunk (start + (maxChunk - overlap)) rest)
    (hafter : ∀ c ∈ rest, start + (maxChunk - overlap) ≤ c.1 ∧ start + maxChunk ≤ c.2) :
    Chunked duration maxChunk overlap minChunk start ((start, start + maxChunk) :: rest) := by
  cases rest with
  | nil => cases h.first
  | cons c rest =>
      have hc : c.1 = start + (maxChunk - overlap) := by simpa using h.first
      refine ⟨rfl, ?_, ?_, ?_, ?_, ?_, ?_⟩
      · rw [List.getLast?_cons_cons]
        exact h.last
      · intro c' hc'
        rcases List.mem_cons.mp hc' with rfl | hc'
        · exact ⟨by simp only; linarith, Or.inl (by simp)⟩
        · exact h.lengths c' hc'
      · exact List.Pairwise.cons (fun c' hc' => by linarith [(hafter c' hc').1]) h.starts
      · exact List.Pairwise.cons (fun c' hc' => (hafter c' hc').2) h.ends
      · refine List.IsChain.cons_cons ?_ h.overlaps
        rw [hc]
        ring
      · intro x
        rw [covers_cons, h.covers x]
        constructor
        · rintro (⟨hx, hx'⟩ | ⟨hx, hx'⟩)
          · exact ⟨hx, hx'.trans hmore⟩
          · exact ⟨by linarith, hx'⟩
        · rintro ⟨hx, hx'⟩
          rcases le_or_gt x (start + maxChunk) with hle | hgt
          · exact Or.inl ⟨hx, hle⟩
          · exact Or.inr ⟨by linarith, hx'⟩

/-- The chunks from a start on begin and end no earlier than the first of them may. -/
theorem ChunksFrom.after (hcap : overlap ≤ maxChunk) {chunks : List (Rat × Rat)}
    (h : ChunksFrom duration maxChunk overlap minChunk start chunks) :
    ∀ c ∈ chunks, start ≤ c.1 ∧ min (start + maxChunk) duration ≤ c.2 := by
  induction h with
  | @last start hstart htail =>
      intro c hc
      obtain rfl := List.mem_singleton.mp hc
      exact ⟨le_rfl, min_le_right _ _⟩
  | @more start rest htail hrest ih =>
      intro c hc
      rcases List.mem_cons.mp hc with rfl | hc
      · exact ⟨le_rfl, min_le_left _ _⟩
      · obtain ⟨hstart, hstop⟩ := ih c hc
        refine ⟨by linarith, le_trans ?_ hstop⟩
        exact min_le_min (by linarith) le_rfl

theorem ChunksFrom.chunked (hoverlap : 0 ≤ overlap) (hmin : overlap < minChunk)
    (hcap : overlap ≤ maxChunk) {chunks : List (Rat × Rat)}
    (h : ChunksFrom duration maxChunk overlap minChunk start chunks)
    (hlong : overlap < maxChunk ∨ chunks.length = 1) :
    Chunked duration maxChunk overlap minChunk start chunks := by
  induction h with
  | @last start hstart htail =>
      exact chunked_single hstart.le (Or.inr ⟨htail, by linarith⟩)
  | @more start rest htail hrest ih =>
      have hstep : overlap < maxChunk := by
        refine hlong.resolve_right fun hlength => ?_
        have hnil : rest = [] := by simpa using hlength
        subst hnil
        cases hrest
      have hafter := hrest.after hcap
      refine (ih (Or.inl hstep)).cons hoverlap hstep (by linarith) ?_
      intro c hc
      obtain ⟨hstart, hstop⟩ := hafter c hc
      exact ⟨hstart, le_trans (le_min (by linarith) (by linarith)) hstop⟩

end Loop

section Defaults

variable {duration maxChunk : Rat} {chunks : List (Rat × Rat)}

/-- The boundaries with the overlap and the shortest chunk of the entry point. -/
def defaultBoundaries (duration maxChunk : Rat) (rounds : Nat) : Option (List (Rat × Rat)) :=
  computeChunkBoundaries rounds duration maxChunk DEFAULT_OVERLAP_S DEFAULT_MIN_CHUNK_S

def WellChunked (duration maxChunk : Rat) (chunks : List (Rat × Rat)) : Prop :=
  Chunked duration maxChunk DEFAULT_OVERLAP_S DEFAULT_MIN_CHUNK_S 0 chunks

/-- There is a chunk at a place if at least the shortest chunk is left at its start. -/
def HasChunk (duration maxChunk : Rat) (i : Nat) : Prop :=
  i = 0 ∨ i * (maxChunk - DEFAULT_OVERLAP_S) + DEFAULT_MIN_CHUNK_S ≤ duration

/-- A cap of at least the overlap leaves only one chunk of audio that is no longer than it. -/
theorem hasChunk_of_le (hcap : DEFAULT_OVERLAP_S ≤ maxChunk) (hle : duration ≤ maxChunk)
    (i : Nat) : HasChunk duration maxChunk i ↔ i = 0 := by
  refine or_iff_left_of_imp fun hlong => ?_
  by_contra hne
  have hone : (1 : Rat) ≤ i := by exact_mod_cast Nat.one_le_iff_ne_zero.mpr hne
  have hstep : maxChunk - DEFAULT_OVERLAP_S ≤ i * (maxChunk - DEFAULT_OVERLAP_S) :=
    le_mul_of_one_le_left (by linarith) hone
  norm_num [DEFAULT_OVERLAP_S, DEFAULT_MIN_CHUNK_S] at hlong hstep
  linarith

/-- The boundaries that are computed are those of chunks that fit. -/
theorem chunks_of_defaultBoundaries (hduration : 0 ≤ duration) (hcap : 30 ≤ maxChunk)
    (hends : 30 < maxChunk ∨ duration < 60) {rounds : Nat}
    (h : defaultBoundaries duration maxChunk rounds = some chunks) :
    WellChunked duration maxChunk chunks ∧
      ∀ i, i < chunks.length ↔ HasChunk duration maxChunk i := by
  rw [defaultBoundaries, computeChunkBoundaries] at h
  split at h
  · rename_i hle
    cases h
    refine ⟨chunked_single hduration (Or.inl (by linarith)), fun i => ?_⟩
    rw [hasChunk_of_le hcap hle, List.length_singleton, Nat.lt_one_iff]
  · rename_i hlong
    have hoverlap : DEFAULT_OVERLAP_S ≤ maxChunk := hcap
    have hfrom := chunksFrom_of_chunkLoop (by decide) (by decide) hoverlap (by linarith) h
    have hlength := hfrom.lt_length hoverlap
    refine ⟨hfrom.chunked (by decide) (by decide) hoverlap ?_, fun i => ?_⟩
    · refine hends.imp_right fun hshort => ?_
      have hone : ¬ 1 < chunks.length := by
        rw [hlength 1]
        norm_num [DEFAULT_OVERLAP_S, DEFAULT_MIN_CHUNK_S]
        linarith
      have hpos : 0 < chunks.length := (hlength 0).mpr (Or.inl rfl)
      omega
    · rw [hlength i, zero_add, HasChunk]

/-- The boundaries are computed with a cap above the overlap, or with a short audio. -/
theorem defaultBoundaries_returns (hcap : 30 ≤ maxChunk)
    (hends : 30 < maxChunk ∨ duration < 60) :
    ∃ chunks, Returns (defaultBoundaries duration maxChunk) chunks := by
  rcases le_or_gt duration maxChunk with hle | hlong
  · exact ⟨_, (returns_const _).congr fun rounds => if_pos hle⟩
  · have hloop : ∀ rounds, defaultBoundaries duration maxChunk rounds =
        chunkLoop duration maxChunk DEFAULT_OVERLAP_S DEFAULT_MIN_CHUNK_S rounds 0 :=
      fun rounds => if_neg (not_le.mpr hlong)
    have hstart : 0 < duration := by linarith
    rcases hends with hstep | hshort
    · have hpos : 0 < maxChunk - DEFAULT_OVERLAP_S := sub_pos.mpr hstep
      have hsteps : duration ≤
          0 + (⌈duration / (maxChunk - DEFAULT_OVERLAP_S)⌉₊ : Rat) *
            (maxChunk - DEFAULT_OVERLAP_S) := by
        rw [zero_add, ← div_le_iff₀ hpos]
        exact Nat.le_ceil _
      obtain ⟨chunks, -, hreturns⟩ := chunkLoop_returns DEFAULT_MIN_CHUNK_S (by decide)
        (by decide) hstep _ hstart hsteps
      exact ⟨chunks, hreturns.congr hloop⟩
    · have htail : duration - (0 + (maxChunk - DEFAULT_OVERLAP_S)) < DEFAULT_MIN_CHUNK_S := by
        norm_num [DEFAULT_OVERLAP_S, DEFAULT_MIN_CHUNK_S]
        linarith
      refine ⟨[(0, duration)], Returns.congr (returns_succ.mp ?_) hloop⟩
      exact (returns_const _).congr fun rounds =>
        chunkLoop_last (by decide) hstart htail rounds

/-- With the cap at the overlap every step goes back to the start. -/
theorem defaultBoundaries_stuck (hlong : 60 ≤ duration) (rounds : Nat) :
    defaultBoundaries duration 30 rounds = none := by
  have htail : DEFAULT_MIN_CHUNK_S ≤ duration - (0 + (30 - DEFAULT_OVERLAP_S)) := by
    norm_num [DEFAULT_OVERLAP_S, DEFAULT_MIN_CHUNK_S]
    exact hlong
  have hloop : ∀ rounds,
      chunkLoop duration 30 DEFAULT_OVERLAP_S DEFAULT_MIN_CHUNK_S rounds 0 = none := by
    intro rounds
    induction rounds with
    | zero => rfl
    | succ rounds ih =>
        have hstep : (0 : Rat) + (30 - DEFAULT_OVERLAP_S) = 0 := by norm_num [DEFAULT_OVERLAP_S]
        rw [chunkLoop_more (by decide) (by decide) (by decide) htail, hstep, ih, Option.map_none]
  rw [defaultBoundaries, computeChunkBoundaries, if_neg (by linarith), hloop]

/-- The boundaries are computed, and fit, exactly if the cap is above the overlap or the audio
is shorter than a minute. -/
theorem defaultBoundaries_iff (hduration : 0 ≤ duration) (hcap : 30 ≤ maxChunk) :
    (∃ chunks, Returns (defaultBoundaries duration maxChunk) chunks ∧
        WellChunked duration maxChunk chunks) ↔ 30 < maxChunk ∨ duration < 60 := by
  constructor
  · rintro ⟨chunks, hreturns, -⟩
    by_contra hstuck
    rw [not_or, not_lt, not_lt] at hstuck
    obtain rfl : maxChunk = 30 := le_antisymm hstuck.1 hcap
    exact not_returns_of_none (defaultBoundaries_stuck hstuck.2) hreturns
  · intro hends
    obtain ⟨chunks, hreturns⟩ := defaultBoundaries_returns hcap hends
    obtain ⟨bound, hbound⟩ := hreturns
    exact ⟨chunks, ⟨bound, hbound⟩,
      (chunks_of_defaultBoundaries hduration hcap hends (hbound bound le_rfl)).1⟩

end Defaults

section Backoff

variable {linkSpeakers : List ChunkResult → LabelMaps} {run : Nat → ChunkRun}
  {runs : Nat → Nat → ChunkRun} {duration maxChunk : Rat} {chunks : List (Rat × Rat)}
  {attempt : Nat} {result : Diarization}

/-- The attempt fails for every chunk. -/
def AllFail (run : Nat → ChunkRun) (duration maxChunk : Rat) : Prop :=
  ∀ i, HasChunk duration maxChunk i → run i = .failed

theorem diarizeChunks_error {i : Nat} {e : DiarizeError}
    (h : diarizeChunks run i chunks = .error e) : e = .extraction := by
  induction chunks generalizing i with
  | nil => cases h
  | cons chunk rest ih =>
      rw [diarizeChunks] at h
      split at h
      · cases h
        rfl
      · exact ih h
      · cases hrest : diarizeChunks run (i + 1) rest with
        | error e' =>
            rw [hrest] at h
            cases h
            exact ih hrest
        | ok results =>
            rw [hrest] at h
            cases h

theorem diarizeChunks_eq_nil (run : Nat → ChunkRun) (chunks : List (Rat × Rat)) (i : Nat) :
    diarizeChunks run i chunks = .ok [] ↔ ∀ j < chunks.length, run (i + j) = .failed := by
  induction chunks generalizing i with
  | nil => simp [diarizeChunks]
  | cons chunk rest ih =>
      rw [List.length_cons, Nat.forall_lt_succ_left', add_zero, diarizeChunks]
      cases hrun : run i with
      | notExtracted => simp
      | failed =>
          rw [ih]
          simp only [true_and]
          refine forall₂_congr fun j _ => ?_
          rw [show i + 1 + j = i + (j + 1) by omega]
      | diarized speakers turns =>
          cases diarizeChunks run (i + 1) rest with
          | error e => simp [Except.map]
          | ok results => simp [Except.map]

/-- An attempt reports that all chunks failed exactly if they did. -/
theorem mergeResults_allChunksFailed :
    (diarizeChunks run 0 chunks >>= mergeResults linkSpeakers) = .error .allChunksFailed ↔
      ∀ j < chunks.length, run j = .failed := by
  have hnil := diarizeChunks_eq_nil run chunks 0
  simp only [zero_add] at hnil
  rw [← hnil]
  cases hresults : diarizeChunks run 0 chunks with
  | error e =>
      obtain rfl := diarizeChunks_error hresults
      simp [bind, Except.bind]
  | ok results =>
      cases results with
      | nil => simp [bind, Except.bind, mergeResults]
      | cons first others => simp [bind, Except.bind, mergeResults]

/-- An attempt ends if its boundaries are computed. -/
theorem attempt_returns (linkSpeakers : List ChunkResult → LabelMaps) (run : Nat → ChunkRun)
    (hduration : 0 ≤ duration) (hcap : 30 ≤ maxChunk)
    (hends : 30 < maxChunk ∨ duration < 60) :
    ∃ result, Returns (fun rounds =>
        runChunkedDiarization rounds linkSpeakers run duration maxChunk) result ∧
      (result = .error .allChunksFailed ↔ AllFail run duration maxChunk) := by
  obtain ⟨chunks, hreturns⟩ := defaultBoundaries_returns hcap hends
  refine ⟨_, hreturns.map _, mergeResults_allChunksFailed.trans ?_⟩
  obtain ⟨bound, hbound⟩ := hreturns
  have hlength := (chunks_of_defaultBoundaries hduration hcap hends (hbound bound le_rfl)).2
  exact forall_congr' fun i => by rw [hlength i]

theorem afterAttempt_of_ne {again : Option Diarization} (h : result ≠ .error .allChunksFailed) :
    afterAttempt again maxChunk result = some result := by
  cases result with
  | ok turns => rfl
  | error e =>
      cases e with
      | allChunksFailed => exact absurd rfl h
      | extraction => rfl
      | pipeline => rfl
      | unboundTurns => rfl

/-- The loop goes on as the attempt does and what follows it. -/
theorem backoff_returns (hcap : 30 ≤ maxChunk) {outcome : Diarization}
    (hattempt : Returns (fun rounds =>
      runChunkedDiarization rounds linkSpeakers (runs attempt) duration maxChunk) result)
    (hafter : Returns (fun rounds => afterAttempt
      (backoff linkSpeakers runs duration rounds (attempt + 1) (max 30 (maxChunk / 2)))
      maxChunk result) outcome) :
    Returns (fun rounds => backoff linkSpeakers runs duration rounds attempt maxChunk) outcome := by
  have hbind : Returns (fun rounds =>
      (runChunkedDiarization rounds linkSpeakers (runs attempt) duration maxChunk).bind
        fun result => afterAttempt
          (backoff linkSpeakers runs duration rounds (attempt + 1) (max 30 (maxChunk / 2)))
          maxChunk result) outcome :=
    hattempt.bind (fun result rounds => afterAttempt
      (backoff linkSpeakers runs duration rounds (attempt + 1) (max 30 (maxChunk / 2)))
      maxChunk result) hafter
  exact returns_succ.mp (hbind.congr fun rounds => if_pos hcap)

/-- After an attempt that does not fail for every chunk the loop ends. -/
theorem backoff_returns_of_result (hcap : 30 ≤ maxChunk)
    (hattempt : Returns (fun rounds =>
      runChunkedDiarization rounds linkSpeakers (runs attempt) duration maxChunk) result)
    (hresult : result ≠ .error .allChunksFailed) :
    Returns (fun rounds => backoff linkSpeakers runs duration rounds attempt maxChunk) result :=
  backoff_returns hcap hattempt
    ((returns_const result).congr fun _ => afterAttempt_of_ne hresult)

/-- At the floor the loop ends with the failure. -/
theorem backoff_returns_at_floor
    (hattempt : Returns (fun rounds =>
      runChunkedDiarization rounds linkSpeakers (runs attempt) duration 30)
        (.error .allChunksFailed)) :
    Returns (fun rounds => backoff linkSpeakers runs duration rounds attempt 30)
      (.error .allChunksFailed) :=
  backoff_returns le_rfl hattempt
    ((returns_const _).congr fun _ => by rw [afterAttempt, if_pos le_rfl])

/-- Above the floor the audio is tried again with half the cap. -/
theorem backoff_returns_again (hcap : 30 < maxChunk)
    (hattempt : Returns (fun rounds =>
      runChunkedDiarization rounds linkSpeakers (runs attempt) duration maxChunk)
        (.error .allChunksFailed))
    (hagain : Returns (fun rounds =>
      backoff linkSpeakers runs duration rounds (attempt + 1) (max 30 (maxChunk / 2))) result) :
    Returns (fun rounds => backoff linkSpeakers runs duration rounds attempt maxChunk) result :=
  backoff_returns hcap.le hattempt
    (hagain.congr fun _ => by rw [afterAttempt, if_neg (not_le.mpr hcap)])

/-- Audio shorter than a minute is diarized or reported as failed, by induction on a bound of the
halvings. -/
theorem backoff_returns_of_short (hduration : 0 ≤ duration) (hshort : duration < 60)
    (halvings attempt : Nat) (hcap : maxChunk ≤ 30 * 2 ^ halvings) :
    ∃ result, Returns (fun rounds =>
      backoff linkSpeakers runs duration rounds attempt maxChunk) result := by
  induction halvings generalizing maxChunk attempt with
  | zero =>
      rw [pow_zero, mul_one] at hcap
      rcases hcap.lt_or_eq with hlt | rfl
      · exact ⟨_, returns_succ.mp ((returns_const _).congr fun rounds => if_neg (not_le.mpr hlt))⟩
      · obtain ⟨result, hattempt, hfails⟩ :=
          attempt_returns linkSpeakers (runs attempt) hduration le_rfl (Or.inr hshort)
        by_cases hresult : result = .error .allChunksFailed
        · subst hresult
          exact ⟨_, backoff_returns_at_floor hattempt⟩
        · exact ⟨_, backoff_returns_of_result le_rfl hattempt hresult⟩
  | succ halvings ih =>
      rcases lt_or_ge 30 maxChunk with hfloor | hfloor
      · obtain ⟨result, hattempt, hfails⟩ :=
          attempt_returns linkSpeakers (runs attempt) hduration hfloor.le (Or.inr hshort)
        by_cases hresult : result = .error .allChunksFailed
        · subst hresult
          have hhalf : max 30 (maxChunk / 2) ≤ 30 * 2 ^ halvings := by
            rw [pow_succ] at hcap
            refine max_le ?_ (by linarith)
            have hone : (1 : Rat) ≤ 2 ^ halvings := one_le_pow₀ (by norm_num)
            linarith
          obtain ⟨outcome, houtcome⟩ := ih (attempt + 1) hhalf
          exact ⟨outcome, backoff_returns_again hfloor hattempt houtcome⟩
        · exact ⟨_, backoff_returns_of_result hfloor.le hattempt hresult⟩
      · refine ih attempt (hfloor.trans ?_)
        have hone : (1 : Rat) ≤ 2 ^ halvings := one_le_pow₀ (by norm_num)
        linarith

/-- An attempt above the floor that does not fail for every chunk ends the loop, by induction on
the attempts before it. -/
theorem backoff_returns_of_attempt (hduration : 0 ≤ duration) (before attempt : Nat)
    (hcap : 30 < maxChunk / 2 ^ before)
    (hattempt : ¬ AllFail (runs (attempt + before)) duration (maxChunk / 2 ^ before)) :
    ∃ result, Returns (fun rounds =>
      backoff linkSpeakers runs duration rounds attempt maxChunk) result := by
  induction before generalizing maxChunk attempt with
  | zero =>
      rw [pow_zero, div_one] at hcap hattempt
      obtain ⟨result, hreturns, hfails⟩ :=
        attempt_returns linkSpeakers (runs attempt) hduration hcap.le (Or.inl hcap)
      exact ⟨_, backoff_returns_of_result hcap.le hreturns fun h => hattempt (hfails.mp h)⟩
  | succ before ih =>
      have hhalf : maxChunk / 2 ^ (before + 1) = maxChunk / 2 / 2 ^ before := by
        rw [pow_succ', div_div]
      rw [hhalf] at hcap hattempt
      have hle : maxChunk / 2 / 2 ^ before ≤ maxChunk / 2 :=
        div_le_self (by
          by_contra hneg
          have hneg' : maxChunk / 2 / 2 ^ before < 0 :=
            div_neg_of_neg_of_pos (not_le.mp hneg) (by positivity)
          linarith) (one_le_pow₀ (by norm_num))
      have hnext : max 30 (maxChunk / 2) = maxChunk / 2 := max_eq_right (by linarith)
      have hfloor : 30 < maxChunk := by linarith
      obtain ⟨result, hreturns, hfails⟩ :=
        attempt_returns linkSpeakers (runs attempt) hduration hfloor.le (Or.inl hfloor)
      by_cases hresult : result = .error .allChunksFailed
      · subst hresult
        obtain ⟨outcome, houtcome⟩ := ih (attempt + 1) hcap
          (by rwa [show attempt + 1 + before = attempt + (before + 1) by omega])
        exact ⟨outcome, backoff_returns_again hfloor hreturns (by rwa [hnext])⟩
      · exact ⟨_, backoff_returns_of_result hfloor.le hreturns hresult⟩

/-- If every attempt above the floor fails, the loop reaches the floor and does not end there. -/
theorem backoff_stuck (hlong : 60 ≤ duration) (rounds attempt : Nat) (hcap : 30 ≤ maxChunk)
    (hfail : ∀ k, 30 < maxChunk / 2 ^ k → AllFail (runs (attempt + k)) duration (maxChunk / 2 ^ k)) :
    backoff linkSpeakers runs duration rounds attempt maxChunk = none := by
  induction rounds generalizing maxChunk attempt with
  | zero => rfl
  | succ rounds ih =>
      rw [backoff, if_pos hcap, Option.bind_eq_none_iff]
      intro result hresult
      rw [runChunkedDiarization, Option.map_eq_some_iff] at hresult
      obtain ⟨chunks, hchunks, rfl⟩ := hresult
      rcases hcap.lt_or_eq with hfloor | rfl
      · have hlength := (chunks_of_defaultBoundaries (by linarith) hcap (Or.inl hfloor) hchunks).2
        have hall : AllFail (runs attempt) duration maxChunk := by
          simpa using hfail 0 (by simpa using hfloor)
        rw [mergeResults_allChunksFailed.mpr fun j hj => hall j ((hlength j).mp hj), afterAttempt,
          if_neg (not_le.mpr hfloor)]
        refine ih (attempt + 1) (le_max_left _ _) fun k hk => ?_
        rcases le_or_gt (maxChunk / 2) 30 with hle | hgt
        · rw [max_eq_left hle] at hk
          exact absurd (div_le_self (by norm_num) (one_le_pow₀ (by norm_num)))
            (not_le.mpr hk)
        · rw [max_eq_right hgt.le] at hk ⊢
          have hhalf : maxChunk / 2 ^ (k + 1) = maxChunk / 2 / 2 ^ k := by rw [pow_succ', div_div]
          have hnext := hfail (k + 1) (by rwa [hhalf])
          rwa [hhalf, show attempt + (k + 1) = attempt + 1 + k by omega] at hnext
      · have hnone := defaultBoundaries_stuck hlong rounds
        rw [defaultBoundaries] at hnone
        rw [hnone] at hchunks
        cases hchunks

/-- The loop is not entered, the audio is shorter than a minute, or some attempt with a cap above
the floor has a chunk that does not fail. -/
def BackoffEnds (runs : Nat → Nat → ChunkRun) (duration maxChunk : Rat) : Prop :=
  maxChunk < 30 ∨ duration < 60 ∨ ∃ k, 30 < maxChunk / 2 ^ k ∧
    ∃ i, HasChunk duration (maxChunk / 2 ^ k) i ∧ runs k i ≠ .failed

theorem backoff_returns_iff (linkSpeakers : List ChunkResult → LabelMaps)
    (hduration : 0 ≤ duration) :
    (∃ result, Returns (fun rounds =>
      backoff linkSpeakers runs duration rounds 0 maxChunk) result) ↔
      BackoffEnds runs duration maxChunk := by
  constructor
  · rintro ⟨result, hreturns⟩
    by_contra hstuck
    simp only [BackoffEnds, not_or, not_lt, not_exists, not_and, not_not] at hstuck
    obtain ⟨hcap, hlong, hfail⟩ := hstuck
    refine not_returns_of_none (fun rounds => backoff_stuck hlong rounds 0 hcap ?_) hreturns
    intro k hk i hi
    rw [zero_add]
    exact hfail k hk i hi
  · rintro (hcap | hshort | ⟨k, hk, i, hi, hrun⟩)
    · exact ⟨_, returns_succ.mp ((returns_const _).congr fun _ => if_neg (not_le.mpr hcap))⟩
    · obtain ⟨halvings, hhalvings⟩ := pow_unbounded_of_one_lt maxChunk (one_lt_two (α := Rat))
      refine backoff_returns_of_short hduration hshort halvings 0 (hhalvings.le.trans ?_)
      exact le_mul_of_one_le_left (by positivity) (by norm_num)
    · refine backoff_returns_of_attempt hduration k 0 hk fun hall => hrun ?_
      rw [zero_add] at hall
      exact hall i hi

end Backoff

section Process

variable {linkSpeakers : List ChunkResult → LabelMaps} {single : SinglePass}
  {runs : Nat → Nat → ChunkRun} {duration : Rat} {requested : Option Rat} {configured : Rat}

/-- The results of the chunks come in the order of the chunks. -/
theorem diarizeChunks_sublist {run : Nat → ChunkRun} {i : Nat} {chunks : List (Rat × Rat)}
    {results : List ChunkResult} (h : diarizeChunks run i chunks = .ok results) :
    (results.map fun c => (c.spec.start, c.spec.end)).Sublist chunks := by
  induction chunks generalizing i results with
  | nil =>
      cases h
      exact List.Sublist.refl _
  | cons chunk rest ih =>
      rw [diarizeChunks] at h
      split at h
      · cases h
      · exact (ih h).cons _
      · cases hrest : diarizeChunks run (i + 1) rest with
        | error e =>
            rw [hrest] at h
            cases h
        | ok others =>
            rw [hrest] at h
            cases h
            exact (ih hrest).cons_cons _

/-- The results that are merged are a series of chunks, whichever of them failed. -/
theorem WellChunked.series {maxChunk : Rat} {chunks : List (Rat × Rat)}
    (h : WellChunked duration maxChunk chunks) {run : Nat → ChunkRun} {results : List ChunkResult}
    (hresults : diarizeChunks run 0 chunks = .ok results) : ChunkSeries results := by
  have hsublist := diarizeChunks_sublist hresults
  constructor
  · have hstarts : (chunks.map Prod.fst).Pairwise (· ≤ ·) :=
      List.pairwise_map.mpr (h.starts.imp le_of_lt)
    simpa [Function.comp_def] using hstarts.sublist (hsublist.map Prod.fst)
  · have hends : (chunks.map Prod.snd).Pairwise (· ≤ ·) := List.pairwise_map.mpr h.ends
    simpa [Function.comp_def] using hends.sublist (hsublist.map Prod.snd)

/-- With a usable cap the boundaries that are computed are those of chunks that fit. -/
theorem wellChunked_of_boundaries (hduration : 0 ≤ duration) {rounds : Nat} {maxChunk : Rat}
    {chunks : List (Rat × Rat)} (hcap : 30 ≤ maxChunk)
    (h : defaultBoundaries duration maxChunk rounds = some chunks) :
    WellChunked duration maxChunk chunks := by
  refine (chunks_of_defaultBoundaries hduration hcap ?_ h).1
  rcases hcap.lt_or_eq with hstep | rfl
  · exact .inl hstep
  · refine .inr (not_le.mp fun hlong => ?_)
    rw [defaultBoundaries_stuck hlong rounds] at h
    cases h

/-- The turns come from one attempt: its chunks fit the audio, some of them are diarized, and the
turns are merged from these without an overlap across chunks. -/
def MergedFrom (linkSpeakers : List ChunkResult → LabelMaps) (run : Nat → ChunkRun)
    (duration maxChunk : Rat) (result : List String × List SpeakerTurn) : Prop :=
  ∃ chunks results, WellChunked duration maxChunk chunks ∧
    diarizeChunks run 0 chunks = .ok results ∧ results ≠ [] ∧
    mergeChunks results (linkSpeakers results) DEFAULT_OVERLAP_S = result ∧
    NoDuplication results (linkSpeakers results) DEFAULT_OVERLAP_S

/-- Whatever fails before, the turns of the loop come from one attempt, by induction on the
rounds. -/
theorem backoff_merged (hduration : 0 ≤ duration) {rounds attempt : Nat} {maxChunk : Rat}
    {result : List String × List SpeakerTurn}
    (h : backoff linkSpeakers runs duration rounds attempt maxChunk = some (.ok result)) :
    ∃ k cap, MergedFrom linkSpeakers (runs k) duration cap result := by
  induction rounds generalizing attempt maxChunk with
  | zero => cases h
  | succ rounds ih =>
      rw [backoff] at h
      split_ifs at h with hcap
      · obtain ⟨outcome, hattempt, hafter⟩ := Option.bind_eq_some_iff.mp h
        rw [runChunkedDiarization, Option.map_eq_some_iff] at hattempt
        obtain ⟨chunks, hchunks, houtcome⟩ := hattempt
        by_cases hall : outcome = .error .allChunksFailed
        · rw [hall, afterAttempt] at hafter
          split_ifs at hafter
          · cases hafter
          · exact ih hafter
        · rw [afterAttempt_of_ne hall] at hafter
          obtain rfl := Option.some.inj hafter
          have hfit := wellChunked_of_boundaries hduration hcap hchunks
          cases hresults : diarizeChunks (runs attempt) 0 chunks with
          | error e =>
              rw [hresults] at houtcome
              cases houtcome
          | ok results =>
              rw [hresults] at houtcome
              cases results with
              | nil => cases houtcome
              | cons first others =>
                  exact ⟨attempt, maxChunk, chunks, first :: others, hfit, hresults,
                    List.cons_ne_nil _ _, Except.ok.inj houtcome,
                    noDuplication (hfit.series hresults) (by decide)⟩
      · cases h

/-- A request that ends with turns returns those of the single pass, or those that one attempt
of the loop has merged. -/
theorem diarize_merged (hduration : 0 ≤ duration) {rounds : Nat}
    {result : List String × List SpeakerTurn}
    (h : diarize linkSpeakers single runs duration requested configured rounds =
      some (.ok result)) :
    single = .diarized result.1 result.2 ∨
      ∃ attempt cap, MergedFrom linkSpeakers (runs attempt) duration cap result := by
  by_cases hchunked : (if requested.getD 0 = 0 then configured else requested.getD 0) < duration
  · exact .inr (backoff_merged hduration ((if_pos hchunked).symm.trans h))
  · replace h := (if_neg hchunked).symm.trans h
    cases single with
    | diarized speakers turns =>
        cases h
        exact .inl rfl
    | failed => cases h
    | outOfMemory => exact .inr (backoff_merged hduration h)

/-- Four minutes for which the memory suffices only in one chunk of the second attempt. -/
def lateRun (attempt i : Nat) : ChunkRun :=
  if attempt = 1 ∧ i = 1 then .diarized ["A"] [⟨"A", 2, 9, none, none⟩] else .failed

theorem diarize_merged_late :
    ∃ attempt cap, MergedFrom (fun _ _ => []) (lateRun attempt) 240 cap
      (["A"], [⟨"A", 32, 39, none, none⟩]) := by
  have hrun : diarize (fun _ _ => []) .outOfMemory lateRun 240 none 900 9 =
      some (.ok (["A"], [⟨"A", 32, 39, none, none⟩])) := by decide +kernel
  exact (diarize_merged (by decide) hrun).resolve_left (by decide)

end Process

section Main

/-- The chunks of the audio are computed, and fit, exactly if the cap is above the overlap or the
audio is shorter than a minute; the loop that halves the cap ends exactly if it does not reach
such a cap with longer audio. -/
theorem chunking_exact (duration : Rat) (hduration : 0 ≤ duration) :
    (∀ maxChunk, 30 ≤ maxChunk →
      ((∃ chunks, Returns (defaultBoundaries duration maxChunk) chunks ∧
        WellChunked duration maxChunk chunks) ↔ 30 < maxChunk ∨ duration < 60)) ∧
    ∀ (linkSpeakers : List ChunkResult → LabelMaps) (runs : Nat → Nat → ChunkRun) (maxChunk : Rat),
      (∃ result, Returns (fun rounds =>
        backoff linkSpeakers runs duration rounds 0 maxChunk) result) ↔
        BackoffEnds runs duration maxChunk :=
  ⟨fun _ hcap => defaultBoundaries_iff hduration hcap,
    fun linkSpeakers _ _ => backoff_returns_iff linkSpeakers hduration⟩

theorem hour_chunking :
    (∀ maxChunk, 30 ≤ maxChunk →
      ((∃ chunks, Returns (defaultBoundaries 3600 maxChunk) chunks ∧
        WellChunked 3600 maxChunk chunks) ↔ 30 < maxChunk ∨ (3600 : Rat) < 60)) ∧
    ∀ (linkSpeakers : List ChunkResult → LabelMaps) (runs : Nat → Nat → ChunkRun) (maxChunk : Rat),
      (∃ result, Returns (fun rounds =>
        backoff linkSpeakers runs 3600 rounds 0 maxChunk) result) ↔
        BackoffEnds runs 3600 maxChunk :=
  chunking_exact 3600 (by decide)

/-- The smallest cap that a request may ask for never cuts an hour of audio. -/
theorem hour_never_cut : ¬ ∃ chunks, Returns (defaultBoundaries 3600 30) chunks ∧
    WellChunked 3600 30 chunks := by
  rintro ⟨chunks, hreturns, -⟩
  exact not_returns_of_none (defaultBoundaries_stuck (by decide)) hreturns

end Main

end Dalston.Engines
