import Mathlib

/-!
# Sweeps over the line

An event raises or lowers a level at a point of the line. A sweep over the events in
their order adds up the lengths between events at which the level is high enough, and
the sum is the measure of the points at which it is.
-/

namespace Dalston.Foundation

open MeasureTheory

section Level

/-- What the events before a point add up to. -/
noncomputable def levelAt (events : List (Rat × Int)) (x : ℝ) : Int :=
  (events.map fun e => if (e.1 : ℝ) < x then e.2 else 0).sum

@[simp] theorem levelAt_nil (x : ℝ) : levelAt [] x = 0 := rfl

@[simp] theorem levelAt_cons (e : Rat × Int) (events : List (Rat × Int)) (x : ℝ) :
    levelAt (e :: events) x = (if (e.1 : ℝ) < x then e.2 else 0) + levelAt events x := rfl

theorem levelAt_append (events events' : List (Rat × Int)) (x : ℝ) :
    levelAt (events ++ events') x = levelAt events x + levelAt events' x := by
  simp [levelAt]

theorem levelAt_perm {events events' : List (Rat × Int)} (h : events.Perm events') (x : ℝ) :
    levelAt events x = levelAt events' x :=
  (h.map _).sum_eq

theorem levelAt_eq_zero {events : List (Rat × Int)} {x : ℝ} (h : ∀ e ∈ events, x ≤ (e.1 : ℝ)) :
    levelAt events x = 0 := by
  refine List.sum_eq_zero fun d hd => ?_
  obtain ⟨e, he, rfl⟩ := List.mem_map.mp hd
  rw [if_neg (not_lt.mpr (h e he))]

end Level

section Sweep

/-- The length between a point and the last event at which the level is high enough. -/
def timeAbove (k : Int) : Rat → Int → List (Rat × Int) → Rat
  | _, _, [] => 0
  | prev, active, (time, delta) :: rest =>
      (if prev < time ∧ k ≤ active then time - prev else 0) +
        timeAbove k time (active + delta) rest

/-- The points after the given one at which the level is high enough. -/
def highPoints (k : Int) (prev : Rat) (active : Int) (events : List (Rat × Int)) : Set ℝ :=
  {x | (prev : ℝ) < x ∧ k ≤ active + levelAt events x}

theorem timeAbove_nonneg (k : Int) (prev : Rat) (active : Int) (events : List (Rat × Int)) :
    0 ≤ timeAbove k prev active events := by
  induction events generalizing prev active with
  | nil => exact le_rfl
  | cons e rest ih =>
      refine add_nonneg ?_ (ih _ _)
      split
      · rename_i h
        linarith [h.1]
      · exact le_rfl

theorem timeAbove_anti {j k : Int} (h : j ≤ k) (prev : Rat) (active : Int)
    (events : List (Rat × Int)) :
    timeAbove k prev active events ≤ timeAbove j prev active events := by
  induction events generalizing prev active with
  | nil => exact le_rfl
  | cons e rest ih =>
      refine add_le_add ?_ (ih _ _)
      split
      · rename_i hk
        rw [if_pos ⟨hk.1, h.trans hk.2⟩]
      · split
        · rename_i hj
          linarith [hj.1]
        · exact le_rfl

/-- The points up to the first event have the level of the start. -/
theorem highPoints_cons {k : Int} {prev time : Rat} {active delta : Int}
    {rest : List (Rat × Int)} (hprev : prev ≤ time) (hrest : ∀ e ∈ rest, time ≤ e.1) :
    highPoints k prev active ((time, delta) :: rest) =
      {x | (x ∈ Set.Ioc (prev : ℝ) time) ∧ k ≤ active} ∪
        highPoints k time (active + delta) rest := by
  have hle : (prev : ℝ) ≤ time := by exact_mod_cast hprev
  ext x
  simp only [highPoints, levelAt_cons, Set.mem_ofPred_eq, Set.mem_union, Set.mem_Ioc]
  rcases le_or_gt x (time : ℝ) with hx | hx
  · have hzero : levelAt rest x = 0 :=
      levelAt_eq_zero fun e he => hx.trans (by exact_mod_cast hrest e he)
    simp [hzero, hx, not_lt.mpr hx]
  · simp [hx, not_le.mpr hx, hle.trans_lt hx, add_assoc]

theorem volume_between (k : Int) (prev time : Rat) (active : Int) :
    volume {x : ℝ | x ∈ Set.Ioc (prev : ℝ) time ∧ k ≤ active} =
      ENNReal.ofReal ((if prev < time ∧ k ≤ active then time - prev else 0 : Rat) : ℝ) := by
  by_cases hk : k ≤ active
  · simp only [hk, and_true, Set.ofPred_mem_eq, Real.volume_Ioc]
    split
    · push_cast
      rfl
    · rename_i h
      have hle : (time : ℝ) ≤ prev := by exact_mod_cast not_lt.mp h
      rw [ENNReal.ofReal_of_nonpos (by linarith), Rat.cast_zero, ENNReal.ofReal_zero]
  · simp [hk]

/-- The sweep measures the points at which the level is high enough, by induction on the
events; the level is too low after the last of them. -/
theorem volume_highPoints {k : Int} {prev : Rat} {active : Int} {events : List (Rat × Int)}
    (hprev : ∀ e ∈ events, prev ≤ e.1) (hsorted : events.Pairwise fun e e' => e.1 ≤ e'.1)
    (hlow : active + (events.map Prod.snd).sum < k) :
    volume (highPoints k prev active events) =
      ENNReal.ofReal (timeAbove k prev active events : ℝ) := by
  induction events generalizing prev active with
  | nil =>
      have hempty : highPoints k prev active [] = ∅ := by
        ext x
        simp only [highPoints, levelAt_nil, Set.mem_ofPred_eq, Set.mem_empty_iff_false, iff_false]
        simp only [List.map_nil, List.sum_nil] at hlow
        exact fun h => absurd hlow (not_lt.mpr h.2)
      rw [hempty, measure_empty, timeAbove, Rat.cast_zero, ENNReal.ofReal_zero]
  | cons e rest ih =>
      obtain ⟨time, delta⟩ := e
      obtain ⟨hrest, hsorted⟩ := List.pairwise_cons.mp hsorted
      have hlow' : active + delta + (rest.map Prod.snd).sum < k := by
        simpa [add_assoc] using hlow
      have hdisjoint : Disjoint (highPoints k time (active + delta) rest)
          {x : ℝ | x ∈ Set.Ioc (prev : ℝ) time ∧ k ≤ active} := by
        rw [Set.disjoint_left]
        rintro x ⟨hx, -⟩ ⟨hx', -⟩
        exact absurd hx (not_lt.mpr hx'.2)
      have hmeasurable : MeasurableSet {x : ℝ | x ∈ Set.Ioc (prev : ℝ) time ∧ k ≤ active} :=
        measurableSet_Ioc.inter (MeasurableSet.const _)
      have hfirst : (0 : Rat) ≤ if prev < time ∧ k ≤ active then time - prev else 0 := by
        split
        · rename_i h
          linarith [h.1]
        · exact le_rfl
      calc
        volume (highPoints k prev active ((time, delta) :: rest))
            = volume (highPoints k time (active + delta) rest ∪
                {x : ℝ | x ∈ Set.Ioc (prev : ℝ) time ∧ k ≤ active}) := by
              rw [highPoints_cons (hprev _ List.mem_cons_self) hrest, Set.union_comm]
        _ = volume (highPoints k time (active + delta) rest) +
              volume {x : ℝ | x ∈ Set.Ioc (prev : ℝ) time ∧ k ≤ active} :=
              measure_union hdisjoint hmeasurable
        _ = ENNReal.ofReal (timeAbove k time (active + delta) rest : ℝ) +
              ENNReal.ofReal ((if prev < time ∧ k ≤ active then time - prev else 0 : Rat) : ℝ) := by
              rw [ih hrest hsorted hlow', volume_between]
        _ = ENNReal.ofReal (timeAbove k prev active ((time, delta) :: rest) : ℝ) := by
              rw [← ENNReal.ofReal_add (by exact_mod_cast timeAbove_nonneg _ _ _ _)
                (by exact_mod_cast hfirst), timeAbove, Rat.cast_add, add_comm]

/-- From a level of zero the sweep does not depend on the point it starts from. -/
theorem timeAbove_of_zero {k : Int} (hk : 0 < k) (prev prev' : Rat) (events : List (Rat × Int)) :
    timeAbove k prev 0 events = timeAbove k prev' 0 events := by
  cases events with
  | nil => rfl
  | cons e rest => simp [timeAbove, not_le.mpr hk]

/-- The sweep from a level of zero measures all points at which the level is high enough. -/
theorem volume_levelAt {k : Int} (hk : 0 < k) (prev : Rat) {events : List (Rat × Int)}
    (hsorted : events.Pairwise fun e e' => e.1 ≤ e'.1)
    (hbalanced : (events.map Prod.snd).sum = 0) :
    volume {x : ℝ | k ≤ levelAt events x} = ENNReal.ofReal (timeAbove k prev 0 events : ℝ) := by
  cases events with
  | nil => simp [timeAbove, not_le.mpr hk]
  | cons e rest =>
      have hfirst : ∀ e' ∈ e :: rest, e.1 ≤ e'.1 := by
        intro e' he'
        rcases List.mem_cons.mp he' with rfl | he'
        · exact le_rfl
        · exact (List.pairwise_cons.mp hsorted).1 e' he'
      have hhigh : {x : ℝ | k ≤ levelAt (e :: rest) x} = highPoints k e.1 0 (e :: rest) := by
        ext x
        simp only [highPoints, zero_add, Set.mem_ofPred_eq]
        refine (and_iff_right_of_imp fun hx => ?_).symm
        by_contra hle
        rw [levelAt_eq_zero fun e' he' =>
          (not_lt.mp hle).trans (by exact_mod_cast hfirst e' he')] at hx
        exact absurd hk (not_lt.mpr hx)
      rw [hhigh, volume_highPoints hfirst hsorted (by rw [hbalanced, zero_add]; exact hk),
        timeAbove_of_zero hk e.1 prev]

end Sweep

end Dalston.Foundation
