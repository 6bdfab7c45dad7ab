import Dalston.Model.Json
import Dalston.Transcripts.SegmentSplits

/-!
# Speech that was not transcribed

The speech regions of the audio come from voice activity detection, and the segments of
the transcript cover what was transcribed, with a slack around each of them. What is left
of each region is reported, apart from slivers.

## Implementation notes

A region is a JSON object, whose bounds `float` converts; the parameter `parse` is `float`
on a text. A region whose bounds do not convert is passed over.
-/

namespace Dalston.Transcripts

open Foundation Model

def MISSED_SPEECH_TOLERANCE_S : Rat := 1

def MISSED_SPEECH_MIN_REGION_S : Rat := 1 / 4

section Sweep

/-- The span that a segment covers, with the slack around it. -/
def coveredSpan (tolerance : Rat) (seg : MergedSegment) : Rat × Rat :=
  (max 0 (seg.start - tolerance), seg.end + tolerance)

def spansMeet (last span : Rat × Rat) : Bool := span.1 ≤ last.2

def joinSpans (last span : Rat × Rat) : Rat × Rat := (last.1, max last.2 span.2)

/-- The spans of the segments, sorted, those that meet joined. -/
def mergedSpans (segments : List MergedSegment) (tolerance : Rat) : List (Rat × Rat) :=
  coalesce spansMeet joinSpans
    ((segments.map (coveredSpan tolerance)).insertionSort (tupleLe Prod.fst Prod.snd))

/-- `float(value)`. -/
def toFloat (parse : String → Option Rat) : Json → Option Rat
  | .str s => parse s
  | value => value.number

/-- The bounds of a region, unless they do not convert. -/
def regionBounds (parse : String → Option Rat) (region : Config) : Option (Rat × Rat) := do
  let start ← toFloat parse (region.getD "start" (.num 0))
  let stop ← toFloat parse (region.getD "end" (.num 0))
  return (start, stop)

/-- What is left of a region after the last span. -/
def trailing (cursor regionEnd : Rat) : List (Rat × Rat) :=
  if MISSED_SPEECH_MIN_REGION_S ≤ regionEnd - cursor then [(cursor, regionEnd)] else []

/-- What is left of a region before a span. -/
def leading (cursor start regionEnd : Rat) : List (Rat × Rat) :=
  if cursor < start ∧ MISSED_SPEECH_MIN_REGION_S ≤ start - cursor then
    [(cursor, min start regionEnd)]
  else []

/-- The loop over the spans for one region. -/
def missedIn (regionEnd : Rat) : Rat → List (Rat × Rat) → List (Rat × Rat)
  | cursor, [] => trailing cursor regionEnd
  | cursor, (start, stop) :: rest =>
      if stop ≤ cursor then missedIn regionEnd cursor rest
      else if regionEnd ≤ start then trailing cursor regionEnd
      else
        let next := max cursor (min stop regionEnd)
        leading cursor start regionEnd ++
          if regionEnd ≤ next then trailing next regionEnd else missedIn regionEnd next rest

def missedInRegion (parse : String → Option Rat) (merged : List (Rat × Rat)) (region : Config) :
    List (Rat × Rat) :=
  match regionBounds parse region with
  | none => []
  | some (regionStart, regionEnd) => missedIn regionEnd regionStart merged

/-- `_compute_missed_speech`. -/
def computeMissedSpeech (parse : String → Option Rat) (speechRegions : List Config)
    (segments : List MergedSegment) (tolerance : Rat) : List (Rat × Rat) :=
  speechRegions.flatMap (missedInRegion parse (mergedSpans segments tolerance))

end Sweep

section Spans

variable {segments : List MergedSegment} {tolerance : Rat}

@[simp] theorem joinSpans_fst (p q : Rat × Rat) : (joinSpans p q).1 = p.1 := rfl

@[simp] theorem joinSpans_snd (p q : Rat × Rat) : (joinSpans p q).2 = max p.2 q.2 := rfl

@[simp] theorem spansMeet_iff {p q : Rat × Rat} : spansMeet p q = true ↔ q.1 ≤ p.2 := by
  simp [spansMeet]

/-- A point within the slack of a segment. -/
def Transcribed (segments : List MergedSegment) (tolerance : Rat) : Rat → Prop :=
  Covers (fun seg => max 0 (seg.start - tolerance)) (fun seg => seg.end + tolerance) segments

theorem spansMeet_joinSpans (p q r : Rat × Rat) :
    spansMeet p (joinSpans q r) = spansMeet p q := rfl

theorem covers_mergedSpans {x : Rat} :
    Covers Prod.fst Prod.snd (mergedSpans segments tolerance) x ↔
      Transcribed segments tolerance x := by
  have hsorted := List.perm_insertionSort (tupleLe Prod.fst Prod.snd)
    (segments.map (coveredSpan tolerance))
  have hspans : Covers Prod.fst Prod.snd (segments.map (coveredSpan tolerance)) x ↔
      Transcribed segments tolerance x := by
    simp [Transcribed, Covers, coveredSpan]
  rw [← hspans]
  constructor
  · intro h
    exact (covers_of_coalesce joinSpans_fst joinSpans_snd (fun _ _ => spansMeet_iff.mp) h).perm
      hsorted
  · intro h
    exact coalesce_covers joinSpans_fst joinSpans_snd (pairwise_first_insertionSort _)
      (h.perm hsorted.symm)

/-- Each span ends before the next one begins. -/
def Apart (p q : Rat × Rat) : Prop := p.2 < q.1 ∧ q.1 ≤ q.2

instance : IsTrans (Rat × Rat) Apart :=
  ⟨fun _ _ _ hpq hqr => ⟨hpq.1.trans_le (hpq.2.trans hqr.1.le), hqr.2⟩⟩

theorem mergedSpans_spec (htolerance : 0 ≤ tolerance)
    (hsegments : ∀ seg ∈ segments, 0 ≤ seg.start ∧ seg.start ≤ seg.end) :
    (∀ p ∈ mergedSpans segments tolerance, p.1 ≤ p.2) ∧
      (mergedSpans segments tolerance).Pairwise Apart := by
  have hordered : ∀ p ∈ mergedSpans segments tolerance, p.1 ≤ p.2 := by
    refine coalesce_all (fun p hp => ?_) fun p q hp _ _ => hp.trans (le_max_left _ _)
    rw [List.mem_insertionSort, List.mem_map] at hp
    obtain ⟨seg, hseg, rfl⟩ := hp
    obtain ⟨hpos, hle⟩ := hsegments seg hseg
    simp only [coveredSpan, max_le_iff]
    constructor <;> linarith
  refine ⟨hordered, ?_⟩
  have hchain : (mergedSpans segments tolerance).IsChain fun p q => spansMeet p q = false :=
    coalesce_chain spansMeet_joinSpans _
  refine List.IsChain.pairwise (hchain.imp_of_mem_imp fun p q _ hq hapart => ?_)
  exact ⟨not_le.mp fun hle => by simp [spansMeet_iff.mpr hle] at hapart, hordered q hq⟩

end Spans

section Gaps

variable {covered : Rat → Prop} {cursor start stop regionEnd : Rat} {g : Rat × Rat}

theorem mem_trailing : g ∈ trailing cursor regionEnd ↔
    g = (cursor, regionEnd) ∧ MISSED_SPEECH_MIN_REGION_S ≤ regionEnd - cursor := by
  unfold trailing
  split <;> simp [*]

theorem trailing_eq_nil (h : regionEnd ≤ cursor) : trailing cursor regionEnd = [] := by
  rw [trailing, if_neg]
  norm_num [MISSED_SPEECH_MIN_REGION_S]
  linarith

theorem mem_leading (h : start < regionEnd) : g ∈ leading cursor start regionEnd ↔
    (cursor < start ∧ g = (cursor, start)) ∧ MISSED_SPEECH_MIN_REGION_S ≤ g.2 - g.1 := by
  rw [leading, min_eq_left h.le]
  constructor
  · intro hg
    split at hg
    · rename_i hlong
      obtain rfl := List.mem_singleton.mp hg
      exact ⟨⟨hlong.1, rfl⟩, hlong.2⟩
    · cases hg
  · rintro ⟨⟨hlt, rfl⟩, hlong⟩
    rw [if_pos ⟨hlt, hlong⟩]
    exact List.mem_singleton.mpr rfl

/-- What is left of a region whose points are free is the region, unless it is a sliver. -/
theorem mem_trailing_iff (h : ∀ x, cursor < x → x < regionEnd → ¬ covered x) :
    g ∈ trailing cursor regionEnd ↔
      Gap covered cursor regionEnd g ∧ MISSED_SPEECH_MIN_REGION_S ≤ g.2 - g.1 := by
  rw [mem_trailing, gap_of_free h]
  constructor
  · rintro ⟨rfl, hlong⟩
    refine ⟨⟨?_, rfl⟩, hlong⟩
    norm_num [MISSED_SPEECH_MIN_REGION_S] at hlong
    linarith
  · rintro ⟨⟨-, rfl⟩, hlong⟩
    exact ⟨rfl, hlong⟩

/-- The loop reports the gaps that the spans leave, by induction on the spans. -/
theorem mem_missedIn {spans : List (Rat × Rat)} (hordered : ∀ p ∈ spans, p.1 ≤ p.2)
    (hapart : spans.Pairwise Apart) : g ∈ missedIn regionEnd cursor spans ↔
      Gap (Covers Prod.fst Prod.snd spans) cursor regionEnd g ∧
        MISSED_SPEECH_MIN_REGION_S ≤ g.2 - g.1 := by
  induction spans generalizing cursor with
  | nil => exact mem_trailing_iff fun x _ _ => not_covers_nil x
  | cons span rest ih =>
      obtain ⟨start, stop⟩ := span
      have hspan : start ≤ stop := hordered (start, stop) List.mem_cons_self
      have hrest : ∀ p ∈ rest, p.1 ≤ p.2 := fun p hp => hordered p (List.mem_cons_of_mem _ hp)
      obtain ⟨hnext, hapart⟩ := List.pairwise_cons.mp hapart
      -- the other spans begin after this one
      have hbefore : ∀ x, x < start → ¬ Covers Prod.fst Prod.snd ((start, stop) :: rest) x := by
        rintro x hx ⟨p, hp, hpx, -⟩
        rcases List.mem_cons.mp hp with rfl | hp
        · exact absurd hx (not_lt.mpr hpx)
        · exact absurd (hx.trans_le (hspan.trans (hnext p hp).1.le)) (not_lt.mpr hpx)
      have hafter : ∀ x, stop < x → (Covers Prod.fst Prod.snd ((start, stop) :: rest) x ↔
          Covers Prod.fst Prod.snd rest x) := by
        intro x hx
        rw [covers_cons]
        exact or_iff_right fun h => absurd hx (not_lt.mpr h.2)
      rw [missedIn]
      split
      · rename_i hstop
        rw [ih hrest hapart, gap_congr fun x hx _ => hafter x (hstop.trans_lt hx)]
      · rename_i hstop
        split
        · rename_i hend
          exact mem_trailing_iff fun x _ hx => hbefore x (hx.trans_le hend)
        · rename_i hend
          rw [not_le] at hstop hend
          rw [List.mem_append, mem_leading hend, gap_cons_iff hspan hstop hend
            (fun x hx hx' => covers_cons.mpr (Or.inl ⟨hx, hx'⟩)) hbefore, or_and_right]
          refine or_congr_right ?_
          rcases le_or_gt regionEnd stop with hlast | hmore
          · rw [min_eq_right hlast, if_pos (le_max_right _ _),
              trailing_eq_nil (le_max_right _ _)]
            refine iff_of_false (List.not_mem_nil) fun hgap => ?_
            exact absurd (hgap.1.left.trans_lt (hgap.1.lt.trans_le hgap.1.right))
              (not_lt.mpr hlast)
          · rw [min_eq_left hmore.le, max_eq_right hstop.le, if_neg (not_le.mpr hmore),
              ih hrest hapart, gap_congr fun x hx _ => hafter x hx]

/-- The loop reports the gaps in order. -/
theorem missedIn_ordered {spans : List (Rat × Rat)} (hordered : ∀ p ∈ spans, p.1 ≤ p.2)
    (hapart : spans.Pairwise Apart) :
    (missedIn regionEnd cursor spans).Pairwise fun g g' => g.2 ≤ g'.1 := by
  have htrailing : ∀ c, (trailing c regionEnd).Pairwise fun g g' : Rat × Rat => g.2 ≤ g'.1 := by
    intro c
    unfold trailing
    split
    · exact List.pairwise_singleton _ _
    · exact List.Pairwise.nil
  induction spans generalizing cursor with
  | nil => exact htrailing cursor
  | cons span rest ih =>
      obtain ⟨start, stop⟩ := span
      have hspan : start ≤ stop := hordered (start, stop) List.mem_cons_self
      have hrest : ∀ p ∈ rest, p.1 ≤ p.2 := fun p hp => hordered p (List.mem_cons_of_mem _ hp)
      have hapart := (List.pairwise_cons.mp hapart).2
      rw [missedIn]
      split
      · exact ih hrest hapart
      · split
        · exact htrailing cursor
        · rename_i hstop hend
          rw [not_le] at hstop hend
          refine List.pairwise_append.mpr ⟨?_, ?_, ?_⟩
          · unfold leading
            split
            · exact List.pairwise_singleton _ _
            · exact List.Pairwise.nil
          · split
            · exact htrailing _
            · exact ih hrest hapart
          · intro g hg g' hg'
            obtain ⟨⟨-, rfl⟩, -⟩ := (mem_leading hend).mp hg
            split at hg'
            · rename_i hlast
              rw [trailing_eq_nil hlast] at hg'
              cases hg'
            · have hleft := ((mem_missedIn hrest hapart).mp hg').1.left
              exact (le_max_of_le_right (le_min hspan hend.le)).trans hleft

end Gaps

section Main

variable {segments : List MergedSegment} {tolerance : Rat}

/-- What is reported of a region: its gaps that are long enough, in order. -/
structure Missed (segments : List MergedSegment) (tolerance : Rat) (bounds : Rat × Rat)
    (spans : List (Rat × Rat)) : Prop where
  ordered : spans.Pairwise fun g g' => g.2 ≤ g'.1
  gaps : ∀ g, g ∈ spans ↔ Gap (Transcribed segments tolerance) bounds.1 bounds.2 g ∧
    MISSED_SPEECH_MIN_REGION_S ≤ g.2 - g.1

/-- What is reported is, region by region, the maximal pieces of the region that are long
enough and that no segment comes near, in order. -/
theorem computeMissedSpeech_missed (parse : String → Option Rat) (speechRegions : List Config)
    (segments : List MergedSegment) (tolerance : Rat) (htolerance : 0 ≤ tolerance)
    (hsegments : ∀ seg ∈ segments, 0 ≤ seg.start ∧ seg.start ≤ seg.end) :
    ∃ missed : List (List (Rat × Rat)),
      computeMissedSpeech parse speechRegions segments tolerance = missed.flatten ∧
      List.Forall₂ (fun region spans =>
        (regionBounds parse region = none → spans = []) ∧
        ∀ bounds, regionBounds parse region = some bounds →
          Missed segments tolerance bounds spans) speechRegions missed := by
  obtain ⟨hordered, hapart⟩ := mergedSpans_spec htolerance hsegments
  refine ⟨speechRegions.map (missedInRegion parse (mergedSpans segments tolerance)), ?_, ?_⟩
  · rw [computeMissedSpeech, List.flatMap_def]
  · rw [List.forall₂_map_right_iff, List.forall₂_same]
    intro region _
    refine ⟨fun hnone => by rw [missedInRegion, hnone], fun bounds hbounds => ?_⟩
    rw [missedInRegion, hbounds]
    refine ⟨missedIn_ordered hordered hapart, fun g => ?_⟩
    rw [mem_missedIn hordered hapart, gap_congr fun x _ _ => covers_mergedSpans]

def speechRegion (start stop : Rat) : Config := [("start", .num start), ("end", .num stop)]

def plainSegment (start stop : Rat) : MergedSegment where
  id := segmentId 0
  start := start
  «end» := stop
  text := "well".toList
  speaker := none
  words := none
  detail := ⟨none, none, none, none, none, none, none⟩

theorem pauses_missed :
    computeMissedSpeech (fun _ => none) [speechRegion 0 10] [plainSegment 6 7, plainSegment 3 4]
        MISSED_SPEECH_TOLERANCE_S = [(0, 2), (8, 10)] ∧
      ∃ missed : List (List (Rat × Rat)),
        computeMissedSpeech (fun _ => none) [speechRegion 0 10] [plainSegment 6 7, plainSegment 3 4]
          MISSED_SPEECH_TOLERANCE_S = missed.flatten ∧
        List.Forall₂ (fun region spans =>
          (regionBounds (fun _ => none) region = none → spans = []) ∧
          ∀ bounds, regionBounds (fun _ => none) region = some bounds →
            Missed [plainSegment 6 7, plainSegment 3 4] MISSED_SPEECH_TOLERANCE_S bounds spans)
          [speechRegion 0 10] missed :=
  ⟨by decide +kernel, computeMissedSpeech_missed _ _ _ _ (by decide) (by decide)⟩

/-- What lies within the slack of a segment is not reported, though no segment covers it. -/
theorem slack_not_missed : ¬ ∀ (speechRegions : List Config) (segments : List MergedSegment),
    (∀ seg ∈ segments, 0 ≤ seg.start ∧ seg.start ≤ seg.end) →
    ∀ region ∈ speechRegions, ∀ bounds, regionBounds (fun _ => none) region = some bounds →
    ∀ g, Gap (Covers MergedSegment.start MergedSegment.end segments) bounds.1 bounds.2 g →
    MISSED_SPEECH_MIN_REGION_S ≤ g.2 - g.1 →
    g ∈ computeMissedSpeech (fun _ => none) speechRegions segments MISSED_SPEECH_TOLERANCE_S := by
  intro h
  have hreported := h [speechRegion 0 2] [plainSegment (5 / 2) 3] (by decide +kernel)
    (speechRegion 0 2) List.mem_cons_self (0, 2) (by decide +kernel) (0, 2)
  have hfree : ∀ x : Rat, 0 < x → x < 2 →
      ¬ Covers MergedSegment.start MergedSegment.end [plainSegment (5 / 2) 3] x := by
    intro x _ hx hcover
    obtain ⟨hle, -⟩ : 5 / 2 ≤ x ∧ x ≤ 3 := by simpa [plainSegment] using hcover
    linarith
  have hmem := hreported ((gap_of_free hfree).mpr ⟨by decide, rfl⟩) (by decide +kernel)
  revert hmem
  decide +kernel

end Main

end Dalston.Transcripts
