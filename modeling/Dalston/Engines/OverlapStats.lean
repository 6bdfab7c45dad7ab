import Dalston.Foundation.Sweep
import Dalston.Transcripts.SpeakerWindows

/-!
# Overlapping speech

The starts and the ends of the turns, sorted, are swept with a count of the turns that
are open. The time with two open turns is overlapping speech, and its ratio is taken to
the time with one.

## Implementation notes

Times are rationals, whose sums and quotients are exact. The instants are the points of
the real line, and a set of instants has its Lebesgue measure.
-/

namespace Dalston.Engines

open Foundation MeasureTheory Transcripts

section Count

/-- The accumulators of the loop over the events. -/
structure OverlapCount where
  active : Int
  overlapDuration : Rat
  totalSpeech : Rat
  prevTime : Rat

def OverlapCount.event (c : OverlapCount) (e : Rat × Int) : OverlapCount where
  active := c.active + e.2
  overlapDuration :=
    if c.prevTime < e.1 ∧ 2 ≤ c.active then c.overlapDuration + (e.1 - c.prevTime)
    else c.overlapDuration
  totalSpeech :=
    if c.prevTime < e.1 ∧ 1 ≤ c.active then c.totalSpeech + (e.1 - c.prevTime)
    else c.totalSpeech
  prevTime := e.1

def turnEvents (t : SpeakerTurn) : List (Rat × Int) := [(t.start, 1), (t.end, -1)]

/-- The events in order, an end before a start at the same time. -/
def sortedEvents (turns : List SpeakerTurn) : List (Rat × Int) :=
  (turns.flatMap turnEvents).insertionSort (tupleLe Prod.fst Prod.snd)

def countOverlap (turns : List SpeakerTurn) : OverlapCount :=
  (sortedEvents turns).foldl OverlapCount.event ⟨0, 0, 0, 0⟩

/-- `overlap_stats_from_turns`. -/
def overlapStatsFromTurns (turns : List SpeakerTurn) : Rat × Rat :=
  if turns = [] then (0, 0)
  else
    let c := countOverlap turns
    (c.overlapDuration, if 0 < c.totalSpeech then c.overlapDuration / c.totalSpeech else 0)

theorem foldl_event (events : List (Rat × Int)) (c : OverlapCount) :
    (events.foldl OverlapCount.event c).overlapDuration =
        c.overlapDuration + timeAbove 2 c.prevTime c.active events ∧
      (events.foldl OverlapCount.event c).totalSpeech =
        c.totalSpeech + timeAbove 1 c.prevTime c.active events := by
  induction events generalizing c with
  | nil => simp [timeAbove]
  | cons e rest ih =>
      obtain ⟨hoverlap, hspeech⟩ := ih (c.event e)
      rw [List.foldl_cons, hoverlap, hspeech]
      simp only [OverlapCount.event, timeAbove]
      constructor
      · split <;> ring
      · split <;> ring

theorem countOverlap_overlapDuration (turns : List SpeakerTurn) :
    (countOverlap turns).overlapDuration = timeAbove 2 0 0 (sortedEvents turns) := by
  simp [countOverlap, (foldl_event _ _).1]

theorem countOverlap_totalSpeech (turns : List SpeakerTurn) :
    (countOverlap turns).totalSpeech = timeAbove 1 0 0 (sortedEvents turns) := by
  simp [countOverlap, (foldl_event _ _).2]

end Count

section Instants

variable {turns : List SpeakerTurn}

/-- The number of turns that cover an instant. -/
noncomputable def turnsAt (turns : List SpeakerTurn) (x : ℝ) : Nat :=
  turns.countP fun t => (t.start : ℝ) ≤ x ∧ x ≤ (t.end : ℝ)

theorem levelAt_turnEvents {t : SpeakerTurn} (ht : t.start ≤ t.end) {x : ℝ}
    (hx : x ≠ t.start) : levelAt (turnEvents t) x =
      if (t.start : ℝ) ≤ x ∧ x ≤ (t.end : ℝ) then 1 else 0 := by
  have hle : (t.start : ℝ) ≤ t.end := by exact_mod_cast ht
  rw [turnEvents, levelAt_cons, levelAt_cons, levelAt_nil]
  rcases lt_or_ge (t.end : ℝ) x with hend | hend
  · simp [hend, hle.trans_lt hend, not_le.mpr hend]
  · rcases lt_or_ge (t.start : ℝ) x with hstart | hstart
    · simp [hstart, hstart.le, hend, not_lt.mpr hend]
    · simp [not_lt.mpr hstart, not_lt.mpr hend, not_le.mpr (lt_of_le_of_ne hstart hx)]

/-- The level of the events is the number of turns, but for the instants at which one starts. -/
theorem levelAt_eq_turnsAt (h : ∀ t ∈ turns, t.start ≤ t.end) {x : ℝ}
    (hx : ∀ t ∈ turns, x ≠ t.start) :
    levelAt (turns.flatMap turnEvents) x = turnsAt turns x := by
  induction turns with
  | nil => rfl
  | cons t rest ih =>
      rw [List.flatMap_cons, levelAt_append, levelAt_turnEvents (h t List.mem_cons_self)
        (hx t List.mem_cons_self), ih (fun u hu => h u (List.mem_cons_of_mem _ hu))
        fun u hu => hx u (List.mem_cons_of_mem _ hu)]
      simp only [turnsAt, List.countP_cons, decide_eq_true_eq]
      split <;> simp [add_comm]

theorem sum_flatMap_turnEvents (turns : List SpeakerTurn) :
    ((turns.flatMap turnEvents).map Prod.snd).sum = 0 := by
  induction turns with
  | nil => rfl
  | cons t rest ih => simpa [turnEvents] using ih

/-- The sweep measures the instants that enough turns cover. -/
theorem volume_turnsAt (h : ∀ t ∈ turns, t.start ≤ t.end) {k : Nat} (hk : 0 < k) :
    volume {x : ℝ | k ≤ turnsAt turns x} =
      ENNReal.ofReal (timeAbove k 0 0 (sortedEvents turns) : ℝ) := by
  have hperm : (sortedEvents turns).Perm (turns.flatMap turnEvents) :=
    List.perm_insertionSort _ _
  have hbalanced : ((sortedEvents turns).map Prod.snd).sum = 0 :=
    (hperm.map _).sum_eq.trans (sum_flatMap_turnEvents turns)
  have hsorted : (sortedEvents turns).Pairwise fun e e' => e.1 ≤ e'.1 :=
    pairwise_first_insertionSort _
  have hpos : (0 : Int) < k := by exact_mod_cast hk
  rw [← volume_levelAt hpos 0 hsorted hbalanced]
  have hstarts : {x : ℝ | x ∈ turns.map fun t => (t.start : ℝ)}.Countable :=
    (List.finite_toSet _).countable
  refine measure_congr ?_
  filter_upwards [hstarts.ae_notMem volume] with x hx
  have hlevel : levelAt (sortedEvents turns) x = turnsAt turns x := by
    rw [levelAt_perm hperm]
    refine levelAt_eq_turnsAt h fun t ht heq => hx ?_
    exact List.mem_map.mpr ⟨t, ht, heq.symm⟩
  refine propext ?_
  show k ≤ turnsAt turns x ↔ (k : Int) ≤ levelAt (sortedEvents turns) x
  rw [hlevel, Int.ofNat_le]

end Instants

section Main

variable {turns : List SpeakerTurn}

/-- The measure of the instants that at least this many turns cover. -/
noncomputable def timeWith (turns : List SpeakerTurn) (k : Nat) : ENNReal :=
  volume {x : ℝ | k ≤ turnsAt turns x}

theorem timeWith_two (h : ∀ t ∈ turns, t.start ≤ t.end) :
    timeWith turns 2 = ENNReal.ofReal ((countOverlap turns).overlapDuration : ℝ) := by
  rw [countOverlap_overlapDuration]
  exact volume_turnsAt h (by decide)

theorem timeWith_one (h : ∀ t ∈ turns, t.start ≤ t.end) :
    timeWith turns 1 = ENNReal.ofReal ((countOverlap turns).totalSpeech : ℝ) := by
  rw [countOverlap_totalSpeech]
  exact volume_turnsAt h (by decide)

theorem overlapDuration_nonneg (turns : List SpeakerTurn) :
    0 ≤ (countOverlap turns).overlapDuration := by
  rw [countOverlap_overlapDuration]
  exact timeAbove_nonneg _ _ _ _

theorem overlapDuration_le (turns : List SpeakerTurn) :
    (countOverlap turns).overlapDuration ≤ (countOverlap turns).totalSpeech := by
  rw [countOverlap_overlapDuration, countOverlap_totalSpeech]
  exact timeAbove_anti (by decide) _ _ _

/-- No turns have no events. -/
theorem overlapStatsFromTurns_eq (turns : List SpeakerTurn) :
    overlapStatsFromTurns turns = ((countOverlap turns).overlapDuration,
      if 0 < (countOverlap turns).totalSpeech then
        (countOverlap turns).overlapDuration / (countOverlap turns).totalSpeech
      else 0) := by
  unfold overlapStatsFromTurns
  split
  · rename_i hnil
    subst hnil
    rfl
  · rfl

/-- The events of the same turns in another order are the same. -/
theorem sortedEvents_perm {turns' : List SpeakerTurn} (h : turns.Perm turns') :
    sortedEvents turns = sortedEvents turns' := by
  have hperm : (sortedEvents turns).Perm (sortedEvents turns') :=
    ((List.perm_insertionSort _ _).trans (h.flatMap_right _)).trans
      (List.perm_insertionSort _ _).symm
  refine hperm.eq_of_pairwise (fun e e' _ _ h h' => ?_) (List.pairwise_insertionSort _ _)
    (List.pairwise_insertionSort _ _)
  exact Prod.ext (tupleLe.antisymm h h').1 (tupleLe.antisymm h h').2

/-- What the statistics of the turns say. -/
structure OverlapOf (turns : List SpeakerTurn) (stats : Rat × Rat) : Prop where
  duration : timeWith turns 2 = ENNReal.ofReal (stats.1 : ℝ)
  positive : 0 ≤ stats.1
  ratio : timeWith turns 1 ≠ 0 →
    (stats.2 : ℝ) = (timeWith turns 2).toReal / (timeWith turns 1).toReal
  silent : timeWith turns 1 = 0 → stats.2 = 0
  unit : 0 ≤ stats.2 ∧ stats.2 ≤ 1

/-- The statistics are the measure of the instants with two turns and its ratio to that of the
instants with one, and do not depend on the order of the turns. -/
theorem overlapStatsFromTurns_measure (turns : List SpeakerTurn)
    (h : ∀ t ∈ turns, t.start ≤ t.end) :
    OverlapOf turns (overlapStatsFromTurns turns) ∧
      ∀ turns' : List SpeakerTurn, turns'.Perm turns →
        overlapStatsFromTurns turns' = overlapStatsFromTurns turns := by
  have hoverlap := overlapDuration_nonneg turns
  have hle := overlapDuration_le turns
  rw [overlapStatsFromTurns_eq]
  refine ⟨⟨timeWith_two h, hoverlap, ?_, ?_, ?_⟩, ?_⟩
  · intro hspeech
    have hpos : 0 < (countOverlap turns).totalSpeech := by
      rw [timeWith_one h, Ne, ENNReal.ofReal_eq_zero, not_le] at hspeech
      exact_mod_cast hspeech
    rw [if_pos hpos, timeWith_one h, timeWith_two h,
      ENNReal.toReal_ofReal (by exact_mod_cast hoverlap),
      ENNReal.toReal_ofReal (by exact_mod_cast hpos.le), Rat.cast_div]
  · intro hspeech
    rw [timeWith_one h, ENNReal.ofReal_eq_zero] at hspeech
    exact if_neg (not_lt.mpr (by exact_mod_cast hspeech))
  · dsimp only
    split
    · rename_i hpos
      exact ⟨div_nonneg hoverlap hpos.le, div_le_one_of_le₀ hle hpos.le⟩
    · exact ⟨le_rfl, zero_le_one⟩
  · intro turns' hperm
    rw [overlapStatsFromTurns_eq, countOverlap, countOverlap, sortedEvents_perm hperm]

/-- Two turns that overlap for a second, one after them and one without length. -/
def crosstalkTurns : List SpeakerTurn :=
  [⟨"SPEAKER_01", 4, 9, none, none⟩, ⟨"SPEAKER_00", 0, 5, none, none⟩,
    ⟨"SPEAKER_00", 9, 10, none, none⟩, ⟨"SPEAKER_02", 2, 2, none, none⟩]

theorem crosstalk_overlap : overlapStatsFromTurns crosstalkTurns = (1, 1 / 10) ∧
    OverlapOf crosstalkTurns (overlapStatsFromTurns crosstalkTurns) ∧
      ∀ turns' : List SpeakerTurn, turns'.Perm crosstalkTurns →
        overlapStatsFromTurns turns' = overlapStatsFromTurns crosstalkTurns :=
  ⟨by decide +kernel, overlapStatsFromTurns_measure crosstalkTurns (by decide +kernel)⟩

end Main

end Dalston.Engines
