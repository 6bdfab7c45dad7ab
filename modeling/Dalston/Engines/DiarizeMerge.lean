import Dalston.Model.Rounding
import Dalston.Transcripts.TurnSmoothing

/-!
# Merging the turns of overlapping chunks

Long audio is diarized in chunks that overlap. The middle of each overlap is a seam, and
the time between two seams is the range of one chunk. The turns of the chunks are moved to
one timeline in whole milliseconds, where a turn is kept, and trimmed to the range of its
chunk, if its midpoint lies in that range.

## Implementation notes

Times are rationals, so a midpoint is exact. The label map of a chunk is empty if the
linking of the speakers gave it none. A turn covers the instants from its start up to but
not at its end.
-/

namespace Dalston.Engines

open Foundation Model Transcripts

structure ChunkSpec where
  index : Nat
  start : Rat
  «end» : Rat

/-- The diarization of one chunk, its times relative to the chunk. -/
structure ChunkResult where
  spec : ChunkSpec
  speakers : List String
  turns : List SpeakerTurn

/-- A turn with the index of its chunk. -/
structure TaggedTurn where
  turn : SpeakerTurn
  chunkIdx : Nat
  deriving DecidableEq

abbrev LabelMaps := Nat → Dict String

section Timeline

/-- A turn of a chunk on the timeline, with the global label of its speaker. -/
def tagTurn (labelMaps : LabelMaps) (chunk : ChunkResult) (turn : SpeakerTurn) : TaggedTurn where
  turn :=
    { speaker := (labelMaps chunk.spec.index).getD turn.speaker turn.speaker
      start := roundMs (turn.start + chunk.spec.start)
      «end» := roundMs (turn.end + chunk.spec.start)
      confidence := turn.confidence }
  chunkIdx := chunk.spec.index

def tagTurns (labelMaps : LabelMaps) (chunks : List ChunkResult) : List TaggedTurn :=
  chunks.flatMap fun chunk => chunk.turns.map (tagTurn labelMaps chunk)

end Timeline

section Ranges

/-- The middle of the overlap of two chunks. -/
def seam (overlap : Rat) (chunk next : ChunkResult) : Rat :=
  roundMs ((next.spec.start + min chunk.spec.end (next.spec.start + overlap)) / 2)

def seams (overlap : Rat) (chunks : List ChunkResult) : List Rat :=
  List.zipWith (seam overlap) chunks chunks.tail

/-- The range of the chunk at a place: from the seam before it to the seam after it. -/
def validRange (seams : List Rat) : Nat → ChunkResult → Rat × Rat
  | 0, chunk => (chunk.spec.start, seams.getD 0 chunk.spec.end)
  | i + 1, chunk => (seams.getD i 0, seams.getD (i + 1) chunk.spec.end)

/-- The ranges by the indexes of the chunks. -/
def chunkRangeMap (overlap : Rat) (chunks : List ChunkResult) : List (Nat × (Rat × Rat)) :=
  chunks.mapIdx fun i chunk => (chunk.spec.index, validRange (seams overlap chunks) i chunk)

/-- The last entry of an index counts. -/
def rangeOf (ranges : List (Nat × (Rat × Rat))) (chunkIdx : Nat) : Option (Rat × Rat) :=
  ranges.reverse.lookup chunkIdx

end Ranges

section Resolve

def turnMid (turn : SpeakerTurn) : Rat := (turn.start + turn.end) / 2

/-- The midpoint of a turn lies in a range. -/
def MidWithin (range : Rat × Rat) (turn : SpeakerTurn) : Prop :=
  range.1 ≤ turnMid turn ∧ turnMid turn ≤ range.2

instance (range : Rat × Rat) (turn : SpeakerTurn) : Decidable (MidWithin range turn) :=
  inferInstanceAs (Decidable (_ ∧ _))

def trimTurn (range : Rat × Rat) (turn : SpeakerTurn) : SpeakerTurn where
  speaker := turn.speaker
  start := roundMs (max turn.start range.1)
  «end» := roundMs (min turn.end range.2)
  confidence := turn.confidence

/-- A turn whose midpoint lies in the range of its chunk, trimmed to the range. -/
def keepTurn (ranges : List (Nat × (Rat × Rat))) (t : TaggedTurn) : Option TaggedTurn :=
  match rangeOf ranges t.chunkIdx with
  | none => some t
  | some range =>
      if MidWithin range t.turn ∧ max t.turn.start range.1 < min t.turn.end range.2 then
        some { t with turn := trimTurn range t.turn }
      else none

/-- `_resolve_overlaps`. -/
def resolveOverlaps (chunks : List ChunkResult) (tagged : List TaggedTurn) (overlap : Rat) :
    List TaggedTurn :=
  tagged.filterMap (keepTurn (chunkRangeMap overlap chunks))

/-- The turns that are merged, still with their chunks. -/
def mergedTurns (chunks : List ChunkResult) (labelMaps : LabelMaps) (overlap : Rat) :
    List TaggedTurn :=
  if 1 < chunks.length ∧ 0 < overlap then
    resolveOverlaps chunks (tagTurns labelMaps chunks) overlap
  else tagTurns labelMaps chunks

/-- `merge_chunks`. -/
def mergeChunks (chunks : List ChunkResult) (labelMaps : LabelMaps) (overlap : Rat) :
    List String × List SpeakerTurn :=
  let allTurns := sortTurns ((mergedTurns chunks labelMaps overlap).map TaggedTurn.turn)
  ((allTurns.map SpeakerTurn.speaker).dedup.insertionSort (· ≤ ·), allTurns)

end Resolve

section Series

variable {chunks : List ChunkResult} {overlap : Rat}

/-- The chunks in the order in which they were cut, neither their starts nor their ends going
back. -/
structure ChunkSeries (chunks : List ChunkResult) : Prop where
  starts : (chunks.map fun c => c.spec.start).Pairwise (· ≤ ·)
  ends : (chunks.map fun c => c.spec.end).Pairwise (· ≤ ·)

theorem le_of_place_le {f : ChunkResult → Rat} (h : (chunks.map f).Pairwise (· ≤ ·)) {i j : Nat}
    (hij : i ≤ j) {c c' : ChunkResult} (hc : chunks[i]? = some c) (hc' : chunks[j]? = some c') :
    f c ≤ f c' := by
  obtain ⟨hi, rfl⟩ := List.getElem?_eq_some_iff.mp hc
  obtain ⟨hj, rfl⟩ := List.getElem?_eq_some_iff.mp hc'
  rcases hij.eq_or_lt with rfl | hlt
  · exact le_rfl
  · have h := List.pairwise_iff_getElem.mp h i j (by simpa using hi) (by simpa using hj) hlt
    simpa using h

theorem seams_getElem? {i : Nat} {c c' : ChunkResult} (hc : chunks[i]? = some c)
    (hc' : chunks[i + 1]? = some c') : (seams overlap chunks)[i]? = some (seam overlap c c') := by
  rw [seams, List.getElem?_zipWith, hc, List.getElem?_tail, hc']

/-- The seams do not go back either. -/
theorem seam_le_seam (h : ChunkSeries chunks) {i j : Nat} (hij : i ≤ j) {c c' d d' : ChunkResult}
    (hc : chunks[i]? = some c) (hc' : chunks[i + 1]? = some c') (hd : chunks[j]? = some d)
    (hd' : chunks[j + 1]? = some d') : seam overlap c c' ≤ seam overlap d d' := by
  have hstart : c'.spec.start ≤ d'.spec.start :=
    le_of_place_le h.starts (Nat.succ_le_succ hij) hc' hd'
  have hend : c.spec.end ≤ d.spec.end := le_of_place_le h.ends hij hc hd
  have hmin : min c.spec.end (c'.spec.start + overlap) ≤
      min d.spec.end (d'.spec.start + overlap) := min_le_min hend (by linarith)
  exact roundMs_mono (by linarith)

/-- The range of a chunk ends before the range of a later chunk begins. -/
theorem validRange_le (h : ChunkSeries chunks) {i j : Nat} (hij : i < j) {c c' : ChunkResult}
    (hc : chunks[i]? = some c) (hc' : chunks[j]? = some c') :
    (validRange (seams overlap chunks) i c).2 ≤ (validRange (seams overlap chunks) j c').1 := by
  obtain ⟨j, rfl⟩ := Nat.exists_eq_add_of_lt hij
  have hj : i + j + 1 < chunks.length := (List.getElem?_eq_some_iff.mp hc').1
  have hnext : chunks[i + 1]? = some chunks[i + 1] := List.getElem?_eq_getElem (by omega)
  have hlast : chunks[i + j]? = some chunks[i + j] := List.getElem?_eq_getElem (by omega)
  have hright : (validRange (seams overlap chunks) i c).2 = seam overlap c chunks[i + 1] := by
    cases i <;> simp [validRange, List.getD_eq_getElem?_getD, seams_getElem? hc hnext]
  have hleft : (validRange (seams overlap chunks) (i + j + 1) c').1 =
      seam overlap chunks[i + j] c' := by
    simp [validRange, List.getD_eq_getElem?_getD, seams_getElem? hlast hc']
  rw [hright, hleft]
  exact seam_le_seam h (by omega) hc hnext hlast hc'

theorem mem_of_rangeOf {ranges : List (Nat × (Rat × Rat))} {chunkIdx : Nat} {range : Rat × Rat}
    (h : rangeOf ranges chunkIdx = some range) : (chunkIdx, range) ∈ ranges := by
  obtain ⟨l₁, l₂, heq, -⟩ := List.lookup_eq_some_iff.mp h
  rw [← List.mem_reverse, heq]
  simp

theorem place_of_rangeOf {chunkIdx : Nat} {range : Rat × Rat}
    (h : rangeOf (chunkRangeMap overlap chunks) chunkIdx = some range) :
    ∃ i c, chunks[i]? = some c ∧ c.spec.index = chunkIdx ∧
      range = validRange (seams overlap chunks) i c := by
  have hmem := mem_of_rangeOf h
  rw [chunkRangeMap, List.mem_mapIdx] at hmem
  obtain ⟨i, hi, heq⟩ := hmem
  obtain ⟨hindex, hrange⟩ := Prod.mk.inj heq
  exact ⟨i, chunks[i], List.getElem?_eq_getElem hi, hindex, hrange.symm⟩

/-- The ranges of two chunks meet in a seam at most. -/
theorem ranges_apart (h : ChunkSeries chunks) {k k' : Nat} {range range' : Rat × Rat}
    (hne : k ≠ k') (hrange : rangeOf (chunkRangeMap overlap chunks) k = some range)
    (hrange' : rangeOf (chunkRangeMap overlap chunks) k' = some range') :
    range.2 ≤ range'.1 ∨ range'.2 ≤ range.1 := by
  obtain ⟨i, c, hc, rfl, rfl⟩ := place_of_rangeOf hrange
  obtain ⟨j, c', hc', rfl, rfl⟩ := place_of_rangeOf hrange'
  rcases Nat.lt_trichotomy i j with hlt | rfl | hgt
  · exact Or.inl (validRange_le h hlt hc hc')
  · rw [hc] at hc'
    exact absurd (congrArg (fun c => c.spec.index) (Option.some.inj hc')) hne
  · exact Or.inr (validRange_le h hgt hc' hc)

/-- The chunk of a turn has a range. -/
theorem exists_rangeOf (overlap : Rat) {labelMaps : LabelMaps} {t : TaggedTurn}
    (ht : t ∈ tagTurns labelMaps chunks) :
    ∃ range, rangeOf (chunkRangeMap overlap chunks) t.chunkIdx = some range := by
  rw [tagTurns, List.mem_flatMap] at ht
  obtain ⟨c, hc, ht⟩ := ht
  obtain ⟨turn, -, rfl⟩ := List.mem_map.mp ht
  rw [← Option.isSome_iff_exists, rangeOf, List.lookup_isSome_iff]
  obtain ⟨i, hi, rfl⟩ := List.mem_iff_getElem.mp hc
  refine ⟨(chunks[i].spec.index, validRange (seams overlap chunks) i chunks[i]), ?_, ?_⟩
  · rw [List.mem_reverse, chunkRangeMap, List.mem_mapIdx]
    exact ⟨i, hi, rfl⟩
  · simp [tagTurn]

end Series

section Kept

variable {chunks : List ChunkResult} {labelMaps : LabelMaps} {overlap x : Rat}
  {range : Rat × Rat} {t u : TaggedTurn}

/-- A turn covers an instant. -/
def CoversInstant (turn : SpeakerTurn) (x : Rat) : Prop := turn.start ≤ x ∧ x < turn.end

instance (turn : SpeakerTurn) (x : Rat) : Decidable (CoversInstant turn x) :=
  inferInstanceAs (Decidable (_ ∧ _))

/-- An instant lies on a chunk's side of the seams around it. -/
def OwnInstant (range : Rat × Rat) (x : Rat) : Prop :=
  roundMs range.1 ≤ x ∧ x < roundMs range.2

instance (range : Rat × Rat) (x : Rat) : Decidable (OwnInstant range x) :=
  inferInstanceAs (Decidable (_ ∧ _))

/-- The times of a turn are whole milliseconds. -/
def OnTimeline (turn : SpeakerTurn) : Prop :=
  roundMs turn.start = turn.start ∧ roundMs turn.end = turn.end

theorem onTimeline_of_mem (ht : t ∈ tagTurns labelMaps chunks) : OnTimeline t.turn := by
  rw [tagTurns, List.mem_flatMap] at ht
  obtain ⟨c, -, ht⟩ := ht
  obtain ⟨turn, -, rfl⟩ := List.mem_map.mp ht
  exact ⟨roundMs_roundMs _, roundMs_roundMs _⟩

/-- A trimmed turn covers what the turn covers on the side of its chunk. -/
theorem coversInstant_trimTurn {turn : SpeakerTurn} (h : OnTimeline turn) :
    CoversInstant (trimTurn range turn) x ↔ CoversInstant turn x ∧ OwnInstant range x := by
  simp only [CoversInstant, OwnInstant, trimTurn, roundMs_max, roundMs_min, h.1, h.2, max_le_iff,
    lt_min_iff]
  tauto

/-- A turn that covers an instant on the side of its chunk has a part there. -/
theorem part_of_coversInstant {turn : SpeakerTurn} (h : OnTimeline turn)
    (hx : CoversInstant turn x) (hown : OwnInstant range x) :
    max turn.start range.1 < min turn.end range.2 := by
  obtain ⟨hstart, hend⟩ := (coversInstant_trimTurn h).mpr ⟨hx, hown⟩
  by_contra hle
  exact absurd (hstart.trans_lt hend) (not_lt.mpr (roundMs_mono (not_lt.mp hle)))

theorem keepTurn_eq_some {ranges : List (Nat × (Rat × Rat))}
    (hrange : rangeOf ranges t.chunkIdx = some range) : keepTurn ranges t = some u ↔
      (MidWithin range t.turn ∧ max t.turn.start range.1 < min t.turn.end range.2) ∧
        { t with turn := trimTurn range t.turn } = u := by
  rw [keepTurn, hrange]
  dsimp only
  split
  · rename_i hkeep
    exact ⟨fun h => ⟨hkeep, Option.some.inj h⟩, fun h => congrArg some h.2⟩
  · rename_i hdrop
    exact iff_of_false (by simp) fun h => hdrop h.1

/-- A merged turn is the trimmed turn of a chunk, unless there is nothing to resolve. -/
theorem mem_mergedTurns (hlen : 1 < chunks.length) (hoverlap : 0 < overlap) :
    u ∈ mergedTurns chunks labelMaps overlap ↔
      ∃ t ∈ tagTurns labelMaps chunks, ∃ range,
        rangeOf (chunkRangeMap overlap chunks) t.chunkIdx = some range ∧
        (MidWithin range t.turn ∧ max t.turn.start range.1 < min t.turn.end range.2) ∧
        { t with turn := trimTurn range t.turn } = u := by
  rw [mergedTurns, if_pos ⟨hlen, hoverlap⟩, resolveOverlaps, List.mem_filterMap]
  constructor
  · rintro ⟨t, ht, hkept⟩
    obtain ⟨range, hrange⟩ := exists_rangeOf overlap ht
    exact ⟨t, ht, range, hrange, (keepTurn_eq_some hrange).mp hkept⟩
  · rintro ⟨t, ht, range, hrange, hkept⟩
    exact ⟨t, ht, (keepTurn_eq_some hrange).mpr hkept⟩

theorem mem_mergeChunks {turn : SpeakerTurn} :
    turn ∈ (mergeChunks chunks labelMaps overlap).2 ↔
      ∃ u ∈ mergedTurns chunks labelMaps overlap, u.turn = turn := by
  rw [mergeChunks, mem_sortTurns, List.mem_map]

end Kept

section Main

variable {chunks : List ChunkResult} {labelMaps : LabelMaps} {overlap : Rat}

/-- Every instant that a chunk owns and one of its turns covers is covered by a turn of the
result with the global speaker. -/
def NoGap (chunks : List ChunkResult) (labelMaps : LabelMaps) (overlap : Rat) : Prop :=
  ∀ t ∈ tagTurns labelMaps chunks, ∀ range,
    rangeOf (chunkRangeMap overlap chunks) t.chunkIdx = some range →
    ∀ x, OwnInstant range x → CoversInstant t.turn x →
      ∃ turn ∈ (mergeChunks chunks labelMaps overlap).2,
        turn.speaker = t.turn.speaker ∧ CoversInstant turn x

/-- The turns kept of different chunks do not overlap. -/
def NoDuplication (chunks : List ChunkResult) (labelMaps : LabelMaps) (overlap : Rat) : Prop :=
  ∀ t ∈ mergedTurns chunks labelMaps overlap, ∀ u ∈ mergedTurns chunks labelMaps overlap,
    t.chunkIdx ≠ u.chunkIdx → t.turn.end ≤ u.turn.start ∨ u.turn.end ≤ t.turn.start

/-- Where a turn whose midpoint lies across a seam reaches into the range of its chunk, other
turns of its speaker in the chunk, with their midpoints in the range, cover it. -/
def AcrossCovered (chunks : List ChunkResult) (labelMaps : LabelMaps) (overlap : Rat) : Prop :=
  1 < chunks.length → ∀ t ∈ tagTurns labelMaps chunks, ∀ range,
    rangeOf (chunkRangeMap overlap chunks) t.chunkIdx = some range →
    ¬ MidWithin range t.turn → ∀ x, OwnInstant range x → CoversInstant t.turn x →
      ∃ t' ∈ tagTurns labelMaps chunks, t'.chunkIdx = t.chunkIdx ∧
        t'.turn.speaker = t.turn.speaker ∧ MidWithin range t'.turn ∧ CoversInstant t'.turn x

/-- The turns of one chunk have one index. -/
theorem chunkIdx_eq_of_length_le (hlen : ¬ 1 < chunks.length) {t u : TaggedTurn}
    (ht : t ∈ tagTurns labelMaps chunks) (hu : u ∈ tagTurns labelMaps chunks) :
    t.chunkIdx = u.chunkIdx := by
  match chunks, hlen with
  | [], _ => cases ht
  | [c], _ =>
      simp only [tagTurns, List.flatMap_singleton, List.mem_map] at ht hu
      obtain ⟨turn, -, rfl⟩ := ht
      obtain ⟨turn', -, rfl⟩ := hu
      rfl
  | _ :: _ :: _, hlen => exact absurd (by simp) hlen

theorem noDuplication (h : ChunkSeries chunks) (hoverlap : 0 < overlap) :
    NoDuplication chunks labelMaps overlap := by
  intro t ht u hu hne
  by_cases hlen : 1 < chunks.length
  · obtain ⟨t', -, range, hrange, -, rfl⟩ := (mem_mergedTurns hlen hoverlap).mp ht
    obtain ⟨u', -, range', hrange', -, rfl⟩ := (mem_mergedTurns hlen hoverlap).mp hu
    rcases ranges_apart h hne hrange hrange' with hle | hle
    · exact Or.inl (roundMs_mono ((min_le_right _ _).trans (hle.trans (le_max_right _ _))))
    · exact Or.inr (roundMs_mono ((min_le_right _ _).trans (hle.trans (le_max_right _ _))))
  · rw [mergedTurns, if_neg fun h => hlen h.1] at ht hu
    exact absurd (chunkIdx_eq_of_length_le hlen ht hu) hne

/-- An instant that a chunk owns is covered in the result exactly by the turns of that chunk
with their midpoints in its range. -/
theorem covered_iff (h : ChunkSeries chunks) (hoverlap : 0 < overlap)
    (hlen : 1 < chunks.length) {k : Nat} {range : Rat × Rat} {x : Rat} {speaker : String}
    (hrange : rangeOf (chunkRangeMap overlap chunks) k = some range) (hown : OwnInstant range x) :
    (∃ turn ∈ (mergeChunks chunks labelMaps overlap).2,
        turn.speaker = speaker ∧ CoversInstant turn x) ↔
      ∃ t ∈ tagTurns labelMaps chunks, t.chunkIdx = k ∧ t.turn.speaker = speaker ∧
        MidWithin range t.turn ∧ CoversInstant t.turn x := by
  constructor
  · rintro ⟨turn, hturn, hspeaker, hx⟩
    obtain ⟨u, hu, rfl⟩ := mem_mergeChunks.mp hturn
    obtain ⟨t, ht, range', hrange', ⟨hmid, -⟩, rfl⟩ := (mem_mergedTurns hlen hoverlap).mp hu
    obtain ⟨hxt, hown'⟩ := (coversInstant_trimTurn (onTimeline_of_mem ht)).mp hx
    -- no instant belongs to two chunks
    have hidx : t.chunkIdx = k := by
      by_contra hne
      rcases ranges_apart h hne hrange' hrange with hle | hle
      · exact absurd (hown'.2.trans_le ((roundMs_mono hle).trans hown.1)) (lt_irrefl x)
      · exact absurd (hown.2.trans_le ((roundMs_mono hle).trans hown'.1)) (lt_irrefl x)
    rw [hidx, hrange] at hrange'
    cases hrange'
    exact ⟨t, ht, hidx, hspeaker, hmid, hxt⟩
  · rintro ⟨t, ht, rfl, hspeaker, hmid, hxt⟩
    have htimeline := onTimeline_of_mem ht
    refine ⟨trimTurn range t.turn, mem_mergeChunks.mpr ⟨{ t with turn := trimTurn range t.turn },
      (mem_mergedTurns hlen hoverlap).mpr ⟨t, ht, range, hrange,
        ⟨hmid, part_of_coversInstant htimeline hxt hown⟩, rfl⟩, rfl⟩, hspeaker, ?_⟩
    exact (coversInstant_trimTurn htimeline).mpr ⟨hxt, hown⟩

/-- The merged turns never overlap across chunks, and they leave no gap exactly if the turns
whose midpoints lie across a seam leave none. -/
theorem mergeChunks_exact (chunks : List ChunkResult) (labelMaps : LabelMaps) (overlap : Rat)
    (h : ChunkSeries chunks) (hoverlap : 0 < overlap) :
    (NoGap chunks labelMaps overlap ∧ NoDuplication chunks labelMaps overlap) ↔
      AcrossCovered chunks labelMaps overlap := by
  constructor
  · rintro ⟨hgap, -⟩ hlen t ht range hrange _ x hown hx
    exact (covered_iff h hoverlap hlen hrange hown).mp (hgap t ht range hrange x hown hx)
  · intro hacross
    refine ⟨fun t ht range hrange x hown hx => ?_, noDuplication h hoverlap⟩
    by_cases hlen : 1 < chunks.length
    · rw [covered_iff h hoverlap hlen hrange hown]
      by_cases hmid : MidWithin range t.turn
      · exact ⟨t, ht, rfl, rfl, hmid, hx⟩
      · exact hacross hlen t ht range hrange hmid x hown hx
    · have hall : mergedTurns chunks labelMaps overlap = tagTurns labelMaps chunks :=
        if_neg fun h => hlen h.1
      exact ⟨t.turn, mem_mergeChunks.mpr ⟨t, hall ▸ ht, rfl⟩, rfl, hx⟩

/-- Two chunks of a quarter of an hour with an overlap of thirty seconds. -/
def quarterHours (first second : List SpeakerTurn) : List ChunkResult :=
  [⟨⟨0, 0, 900⟩, ["SPEAKER_00"], first⟩, ⟨⟨1, 870, 1770⟩, ["SPEAKER_00"], second⟩]

/-- Speech over the end of the first chunk, which ends shortly after the seam at 885. -/
def speechAtSeam : List ChunkResult :=
  quarterHours [⟨"SPEAKER_00", 880, 900, none, none⟩] [⟨"SPEAKER_00", 10, 40, none, none⟩]

theorem speechAtSeam_gap : ¬ (NoGap speechAtSeam (fun _ => []) 30 ∧
    NoDuplication speechAtSeam (fun _ => []) 30) := by
  rintro ⟨hgap, -⟩
  obtain ⟨turn, hturn, -, hx⟩ := hgap ⟨⟨"SPEAKER_00", 880, 900, none, none⟩, 0⟩ (by decide +kernel)
    (0, 885) (by decide +kernel) 882 (by decide +kernel) (by decide +kernel)
  have hmerged : (mergeChunks speechAtSeam (fun _ => []) 30).2 =
      [⟨"SPEAKER_00", 885, 910, none, none⟩] := by decide +kernel
  rw [hmerged, List.mem_singleton] at hturn
  subst hturn
  exact absurd hx.1 (by decide)

/-- Speech that both chunks have on their own sides of the seam. -/
def speechAroundSeam : List ChunkResult :=
  quarterHours [⟨"SPEAKER_00", 860, 890, none, none⟩] [⟨"SPEAKER_00", 0, 40, none, none⟩]

theorem speechAroundSeam_merged :
    (NoGap speechAroundSeam (fun _ => []) 30 ∧ NoDuplication speechAroundSeam (fun _ => []) 30) ↔
      AcrossCovered speechAroundSeam (fun _ => []) 30 :=
  mergeChunks_exact speechAroundSeam (fun _ => []) 30 ⟨by decide, by decide⟩ (by decide)

end Main

end Dalston.Engines
