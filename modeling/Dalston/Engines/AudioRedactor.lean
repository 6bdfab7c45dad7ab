import Dalston.Foundation.Spans
import Dalston.Engines.WordTimes

/-!
# The ranges that the audio redactor silences

The redactor pads the times of each entity and merges the ranges that meet. The words of an
entity are silenced exactly if the detector's running offsets are their places in the text.

## Implementation notes

The filter that FFmpeg runs and the redaction map are left out. The types of a merged range
come from a set, whose order is not specified.
-/

namespace Dalston.Engines.AudioRedactor

open Foundation Model.TextWrap PiiDetection

section Ranges

structure TimeRange where
  start : Rat
  stop : Rat
  types : List String
  deriving DecidableEq

/-- The range of an entity with its padding. -/
def paddedRange (bufferMs : Nat) (entity : PIIEntity) : TimeRange where
  start := max 0 (entity.startTime - bufferMs / 1000)
  stop := entity.endTime + bufferMs / 1000
  types := [entity.entityType]

def extractTimeRanges (entities : List PIIEntity) (bufferMs : Nat) : List TimeRange :=
  entities.map (paddedRange bufferMs)

def overlapping (current next : TimeRange) : Bool := decide (next.start ≤ current.stop)

def extend (current next : TimeRange) : TimeRange where
  start := current.start
  stop := max current.stop next.stop
  types := (current.types ++ next.types).dedup

def mergeRanges (ranges : List TimeRange) : List TimeRange :=
  coalesce overlapping extend (ranges.insertionSort fun r r' => r.start ≤ r'.start)

theorem extend_start (p q : TimeRange) : (extend p q).start = p.start := rfl

theorem extend_stop (p q : TimeRange) : (extend p q).stop = max p.stop q.stop := rfl

theorem overlapping_extend (p q r : TimeRange) : overlapping p (extend q r) = overlapping p q :=
  rfl

variable {ranges : List TimeRange}

theorem sorted_ranges (ranges : List TimeRange) :
    (ranges.insertionSort fun r r' => r.start ≤ r'.start).Pairwise
      fun r r' => r.start ≤ r'.start := by
  have : Std.Total fun r r' : TimeRange => r.start ≤ r'.start := ⟨fun _ _ => le_total _ _⟩
  have : IsTrans TimeRange fun r r' => r.start ≤ r'.start := ⟨fun _ _ _ => le_trans⟩
  exact List.pairwise_insertionSort _ ranges

theorem mergeRanges_sorted (ranges : List TimeRange) :
    (mergeRanges ranges).Pairwise fun m m' => m.start ≤ m'.start := by
  have hstarts := List.pairwise_map.mpr (sorted_ranges ranges)
  exact List.pairwise_map.mp (hstarts.sublist (coalesce_sublist extend_start _))

theorem mergeRanges_disjoint (ranges : List TimeRange) :
    (mergeRanges ranges).Pairwise fun m m' => m.stop < m'.start := by
  have hchain : (mergeRanges ranges).IsChain fun m m' => overlapping m m' = false :=
    coalesce_chain overlapping_extend _
  refine pairwise_apart (hchain.imp fun m m' hapart => ?_) (mergeRanges_sorted ranges)
  simpa [overlapping] using hapart

theorem mergeRanges_reaches {r : TimeRange} (h : r ∈ ranges) :
    ∃ m ∈ mergeRanges ranges, m.start ≤ r.start ∧ r.stop ≤ m.stop :=
  coalesce_reaches extend_start extend_stop (sorted_ranges ranges) r
    ((List.mem_insertionSort _).mpr h)

/-- Merging covers the same points of time. -/
theorem covers_mergeRanges {x : Rat} :
    Covers TimeRange.start TimeRange.stop (mergeRanges ranges) x ↔
      Covers TimeRange.start TimeRange.stop ranges x := by
  have hperm := List.perm_insertionSort (fun r r' : TimeRange => r.start ≤ r'.start) ranges
  constructor
  · intro h
    exact (covers_of_coalesce extend_start extend_stop (fun _ _ => of_decide_eq_true) h).perm
      hperm
  · intro h
    exact coalesce_covers extend_start extend_stop (sorted_ranges ranges) (h.perm hperm.symm)

end Ranges

section Redaction

variable (text : Text) (segments : List Segment) (placed : List (Nat × Word))

/-- The merged ranges for the entities of a run. -/
def redactedRanges (entities : List PIIEntity) (bufferMs : Nat) : List TimeRange :=
  mergeRanges (extractTimeRanges entities bufferMs)

/-- The ranges are in order and apart, and within the audio they cover what the padded times
of the entities cover. -/
structure MergesPadding (entities : List PIIEntity) (bufferMs : Nat)
    (ranges : List TimeRange) : Prop where
  sorted : ranges.Pairwise fun m m' => m.start ≤ m'.start
  disjoint : ranges.Pairwise fun m m' => m.stop < m'.start
  covers : ∀ x, Covers TimeRange.start TimeRange.stop ranges x ↔
    0 ≤ x ∧ ∃ e ∈ entities, e.startTime - bufferMs / 1000 ≤ x ∧ x ≤ e.endTime + bufferMs / 1000

theorem redactedRanges_merges (entities : List PIIEntity) (bufferMs : Nat) :
    MergesPadding entities bufferMs (redactedRanges entities bufferMs) where
  sorted := mergeRanges_sorted _
  disjoint := mergeRanges_disjoint _
  covers x := by
    rw [redactedRanges, covers_mergeRanges]
    simp only [Covers, extractTimeRanges, List.mem_map, exists_exists_and_eq_and, paddedRange,
      max_le_iff]
    constructor
    · rintro ⟨e, he, ⟨hx, hstart⟩, hstop⟩
      exact ⟨hx, e, he, hstart, hstop⟩
    · rintro ⟨hx, e, he, hstart, hstop⟩
      exact ⟨e, he, ⟨hx, hstart⟩, hstop⟩

/-- The range that an entity gets reaches around the word. -/
def Silenced (ranges : List TimeRange) (bufferMs : Nat) (e : PIIEntity) (w : Word) : Prop :=
  ∃ m ∈ ranges, (m.start ≤ (paddedRange bufferMs e).start ∧
    (paddedRange bufferMs e).stop ≤ m.stop) ∧ m.start ≤ w.start ∧ w.stop ≤ m.stop

/-- Whatever the recognisers find in the text, every word that an entity touches is silenced
with it, and the ranges merge the padded times of the entities. -/
def RedactsWords : Prop :=
  ∀ (rs : Recognisers) (entityTypes : List String) (threshold : Rat) (language : String)
    (bufferMs : Nat), ∀ entities,
    entities = detectEntities rs text segments entityTypes threshold language →
      MergesPadding entities bufferMs (redactedRanges entities bufferMs) ∧
      ∀ e ∈ entities, e.endOffset ≤ text.length →
        ∀ p ∈ placed, Touches p e.startOffset e.endOffset →
          Silenced (redactedRanges entities bufferMs) bufferMs e p.2

end Redaction

section Coverage

variable {text : Text} {segments : List Segment} {placed : List (Nat × Word)}

/-- An entity has the times of its span. -/
theorem times_of_mem_foundEntities {rs : Recognisers} {entityTypes : List String}
    {threshold : Rat} {wordTimes : WordTimes} {language : String} {e : PIIEntity}
    (h : e ∈ foundEntities rs text entityTypes threshold wordTimes language) :
    e.startTime = (findEntityTiming e.startOffset e.endOffset wordTimes).1 ∧
      e.endTime = (findEntityTiming e.startOffset e.endOffset wordTimes).2 := by
  rcases List.mem_append.mp h with h | h
  · rw [detectWithPresidio] at h
    cases hanalyze : rs.analyze with
    | none => simp [hanalyze] at h
    | some analyze =>
        simp only [hanalyze] at h
        split_ifs at h
        · cases h
        · obtain ⟨r, -, rfl⟩ := List.mem_map.mp h
          exact ⟨rfl, rfl⟩
  · rw [detectWithGliner] at h
    cases hpredict : rs.predictEntities with
    | none => simp [hpredict] at h
    | some predict =>
        simp only [hpredict] at h
        split_ifs at h
        · cases h
        · obtain ⟨prediction, -, hsome⟩ := List.mem_filterMap.mp h
          split at hsome
          · cases hsome
          · split_ifs at hsome
            obtain rfl := Option.some.inj hsome
            exact ⟨rfl, rfl⟩

/-- A model that finds one place in the text. -/
def spanModel {a b : Nat} (hab : a < b) : Recognisers where
  analyze := none
  predictEntities := some fun text _ _ =>
    [⟨"location", (text.drop a).take (b - a), a, b, some 1, hab⟩]

theorem detectEntities_spanModel {a b : Nat} (hab : a < b) (text : Text)
    (segments : List Segment) :
    ∃ e, detectEntities (spanModel hab) text segments ["location"] 0 "en" = [e] ∧
      e.startOffset = a ∧ e.endOffset = b ∧
      e.startTime = (findEntityTiming a b (buildWordTimeMap segments)).1 ∧
      e.endTime = (findEntityTiming a b (buildWordTimeMap segments)).2 :=
  ⟨_, rfl, rfl, rfl, rfl, rfl⟩

theorem redactedRanges_singleton (e : PIIEntity) (bufferMs : Nat) :
    redactedRanges [e] bufferMs = [paddedRange bufferMs e] := rfl

/-- Where all words are silenced, the times of any span reach around the words it touches. -/
theorem RedactsWords.span (h : RedactsWords text segments placed) {a b : Nat} (hab : a < b)
    (hb : b ≤ text.length) {p : Nat × Word} (hp : p ∈ placed) (htouch : Touches p a b) :
    (findEntityTiming a b (buildWordTimeMap segments)).1 ≤ p.2.start ∧
      p.2.stop ≤ (findEntityTiming a b (buildWordTimeMap segments)).2 := by
  obtain ⟨e, hfound, rfl, rfl, hstart, hstop⟩ := detectEntities_spanModel hab text segments
  obtain ⟨-, hwords⟩ := h (spanModel hab) ["location"] 0 "en" 0 [e] hfound.symm
  obtain ⟨m, hm, -, hmstart, hmstop⟩ := hwords e (List.mem_singleton_self e) hb p hp htouch
  rw [redactedRanges_singleton, List.mem_singleton] at hm
  subst hm
  simp only [paddedRange, Nat.cast_zero, zero_div, sub_zero, add_zero] at hmstart hmstop
  rw [← hstart, ← hstop]
  exact ⟨(le_max_right _ _).trans hmstart, hmstop⟩

/-- Words in order that stand where the offsets put them are silenced. -/
theorem redactsWords_of_spaced (hstands : Stands text placed)
    (htimes : ∀ p ∈ placed, 0 ≤ p.2.start) (hplaces : placed = spaced 0 (pieces segments))
    (horder : PiiDetection.InOrder (placed.map Prod.snd)) : RedactsWords text segments placed := by
  rintro rs entityTypes threshold language bufferMs entities rfl
  refine ⟨redactedRanges_merges _ _, fun e he _ p hp htouch => ?_⟩
  have hfound := times_of_mem_foundEntities (mem_of_mem_deduplicateEntities he)
  rw [buildWordTimeMap_eq, ← hplaces] at hfound
  obtain ⟨hstart, hstop⟩ := hstands.touches_timing horder hp htouch e.proper
  rw [← hfound.1] at hstart
  rw [← hfound.2] at hstop
  obtain ⟨m, hm, hmstart, hmstop⟩ := mergeRanges_reaches
    (List.mem_map_of_mem (f := paddedRange bufferMs) he)
  have hbuffer : (0 : Rat) ≤ bufferMs / 1000 := by positivity
  refine ⟨m, hm, ⟨hmstart, hmstop⟩, hmstart.trans (max_le (htimes p hp) ?_), le_trans ?_ hmstop⟩
  · exact (sub_le_self _ hbuffer).trans hstart
  · exact hstop.trans (le_add_of_nonneg_right hbuffer)

/-- Words that stand apart in the text are silenced with every entity that touches them
exactly if they stand where single spaces from the start put them, and their times are in
order. -/
theorem redactsWords_iff (hplaced : placed.map Prod.snd = pieces segments)
    (hstands : Stands text placed) (htimes : ∀ p ∈ placed, 0 ≤ p.2.start ∧ 0 < p.2.stop) :
    RedactsWords text segments placed ↔
      placed = spaced 0 (pieces segments) ∧ PiiDetection.InOrder (pieces segments) := by
  constructor
  · intro h
    have hplaces : placed = spaced 0 (pieces segments) := by
      rw [← hplaced]
      refine (eq_spaced_or_beyond hstands.apart fun p _ => Nat.zero_le _).resolve_right ?_
      rintro ⟨p, hp, hbeyond⟩
      -- the last character of the word lies behind all known offsets
      have hlt := hstands.lt_endOf hp
      have hunknown : findEntityTiming (endOf p - 1) (endOf p) (buildWordTimeMap segments) =
          (0, 0) := by
        refine findEntityTiming_unknown fun q hq _ => ?_
        rw [Option.eq_none_iff_forall_ne_some, buildWordTimeMap_eq, ← hplaced]
        intro t ht
        obtain ⟨s, hs, -, hqs, -⟩ := (lookup_eq_some_iff (spaced_apart _ _)).mp ht
        have := hbeyond s hs
        omega
      have hlast : endOf p - 1 < endOf p := by omega
      have hcovered := (h.span hlast (hstands.endOf_le hp) hp ⟨hlt, hlast⟩).2
      rw [hunknown] at hcovered
      exact (htimes p hp).2.not_ge hcovered
    refine ⟨hplaces, ?_⟩
    rw [← hplaced]
    refine List.pairwise_map.mpr (hstands.apart.imp_of_mem fun {p p'} hp hp' hapart => ?_)
    have hlt := hstands.lt_endOf hp
    have hlt' := hstands.lt_endOf hp'
    have hspan : p.1 < endOf p' := by omega
    have htiming := hstands.timing hp hp' (by omega)
    have hfirst := h.span hspan (hstands.endOf_le hp') hp ⟨hspan, hlt⟩
    have hlast := h.span hspan (hstands.endOf_le hp') hp' ⟨hlt', hspan⟩
    rw [buildWordTimeMap_eq, ← hplaces, htiming] at hfirst hlast
    exact ⟨hlast.1, hfirst.2⟩
  · rintro ⟨hplaces, horder⟩
    refine redactsWords_of_spaced hstands (fun p hp => (htimes p hp).1) hplaces ?_
    rw [hplaced]
    exact horder

end Coverage

section Dropped

def bob : Word := ⟨"Bob".toList, 1, 2⟩

/-- The words of a call, with the first one or without it. -/
def callSegments (words : List Word) : List Segment :=
  [⟨0, 4, "call Bob now".toList, some words⟩]

/-- Every word is aligned: all of them are silenced with any entity. -/
theorem whole_call_redacted :
    RedactsWords "call Bob now".toList
      (callSegments [⟨"call".toList, 0, 1⟩, bob, ⟨"now".toList, 3, 4⟩])
      [(0, ⟨"call".toList, 0, 1⟩), (5, bob), (9, ⟨"now".toList, 3, 4⟩)] :=
  (redactsWords_iff rfl ⟨by decide, by decide⟩ (by decide +kernel)).mpr
    ⟨rfl, by simp only [PiiDetection.InOrder]; decide +kernel⟩

/-- A model that finds the name. -/
def nameModel : Recognisers where
  analyze := none
  predictEntities := some fun _ _ _ =>
    [⟨"person", "Bob".toList, 5, 8, some (9 / 10), by decide⟩]

/-- The first word is not aligned: the name gets the times of the word behind it, and with the
default padding it is not silenced. -/
theorem bob_stays_audible :
    Stands "call Bob now".toList [(5, bob), (9, ⟨"now".toList, 3, 4⟩)] ∧
      (detectEntities nameModel "call Bob now".toList
          (callSegments [bob, ⟨"now".toList, 3, 4⟩]) ["name"] (1 / 2) "en").map
            (fun e => (e.entityType, e.startOffset, e.endOffset, e.startTime, e.endTime)) =
          [("name", 5, 8, 3, 4)] ∧
      (redactedRanges (detectEntities nameModel "call Bob now".toList
          (callSegments [bob, ⟨"now".toList, 3, 4⟩]) ["name"] (1 / 2) "en") 50) =
          [⟨59 / 20, 81 / 20, ["name"]⟩] ∧
      ¬ RedactsWords "call Bob now".toList (callSegments [bob, ⟨"now".toList, 3, 4⟩])
          [(5, bob), (9, ⟨"now".toList, 3, 4⟩)] := by
  refine ⟨⟨by decide, by decide⟩, by decide +kernel, by decide +kernel, fun h => ?_⟩
  have hspan := (h.span (a := 5) (b := 8) (by decide) (by decide) List.mem_cons_self
    ⟨by decide, by decide⟩).1
  revert hspan
  decide +kernel

end Dropped

end Dalston.Engines.AudioRedactor
