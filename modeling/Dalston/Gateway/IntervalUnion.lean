import Dalston.Foundation.Spans
import Dalston.Model.Rounding

/-!
# The time that intervals cover

Waiting and processing times of a job add up what the intervals of its tasks cover, where
intervals that meet count once. The merge sorts the intervals by their starts and keeps the
current one open as long as the next begins within it.

## Implementation notes

Instants are whole microseconds. The seconds of an interval, their sum and the final product
are rounded to floats one operation at a time.
-/

namespace Dalston.Gateway.IntervalUnion

open Foundation Model

section Source

/-- An interval with both ends, the second after the first. -/
def validPair : Option Int × Option Int → Option (Int × Int)
  | (some start, some stop) => if stop ≤ start then none else some (start, stop)
  | _ => none

def validPairs (intervals : List (Option Int × Option Int)) : List (Int × Int) :=
  intervals.filterMap validPair

/-- `(end - start).total_seconds()`. -/
def totalSeconds (p : Int × Int) : Rat := roundDouble (((p.2 - p.1 : Int) : Rat) / 1000000)

structure MergeState where
  totalSeconds : Rat
  cur : Int × Int

/-- Close the current interval. -/
def MergeState.closed (s : MergeState) : Rat :=
  roundDouble (s.totalSeconds + IntervalUnion.totalSeconds s.cur)

/-- One round of the loop over the sorted pairs. -/
def mergePair (s : MergeState) (p : Int × Int) : MergeState :=
  if p.1 ≤ s.cur.2 then
    if s.cur.2 < p.2 then { s with cur := (s.cur.1, p.2) } else s
  else ⟨s.closed, p⟩

def computeIntervalUnionMs (intervals : List (Option Int × Option Int)) : Option Int :=
  match (validPairs intervals).insertionSort (fun p q => p.1 ≤ q.1) with
  | [] => none
  | first :: rest =>
      some (wholePart (roundDouble ((rest.foldl mergePair ⟨0, first⟩).closed * 1000)))

theorem mem_validPairs {intervals : List (Option Int × Option Int)} {p : Int × Int} :
    p ∈ validPairs intervals ↔ (some p.1, some p.2) ∈ intervals ∧ p.1 < p.2 := by
  obtain ⟨start, stop⟩ := p
  simp only [validPairs, List.mem_filterMap]
  constructor
  · rintro ⟨⟨first, last⟩, hmem, hvalid⟩
    cases first <;> cases last <;> simp [validPair] at hvalid
    obtain ⟨hlt, rfl, rfl⟩ := hvalid
    exact ⟨hmem, hlt⟩
  · rintro ⟨hmem, hlt⟩
    exact ⟨_, hmem, by simpa [validPair] using hlt⟩

theorem validPairs_eq_nil_iff {intervals : List (Option Int × Option Int)} :
    validPairs intervals = [] ↔
      ∀ start stop, (some start, some stop) ∈ intervals → stop ≤ start := by
  rw [List.eq_nil_iff_forall_not_mem, Prod.forall]
  simp only [mem_validPairs, not_and, not_lt]

end Source

section Merging

/-- The next pair begins within the current one or at its end. -/
def meets (p q : Int × Int) : Bool := decide (q.1 ≤ p.2)

def joined (p q : Int × Int) : Int × Int := (p.1, max p.2 q.2)

/-- The intervals that the loop closes, in order. -/
def merged (pairs : List (Int × Int)) : List (Int × Int) :=
  coalesce meets joined (pairs.insertionSort fun p q => p.1 ≤ q.1)

/-- The sum of the seconds of intervals, from the left. -/
def addSeconds : Rat → List (Int × Int) → Rat :=
  List.foldl fun total p => roundDouble (total + totalSeconds p)

theorem mergePair_of_meets {s : MergeState} {p : Int × Int} (h : meets s.cur p = true) :
    mergePair s p = ⟨s.totalSeconds, joined s.cur p⟩ := by
  have hle : p.1 ≤ s.cur.2 := by simpa [meets] using h
  rw [mergePair, if_pos hle]
  split_ifs with hlt
  · rw [joined, max_eq_right hlt.le]
  · rw [joined, max_eq_left (not_lt.mp hlt)]

theorem mergePair_of_not_meets {s : MergeState} {p : Int × Int} (h : meets s.cur p = false) :
    mergePair s p = ⟨s.closed, p⟩ := by
  have hlt : ¬ p.1 ≤ s.cur.2 := by simpa [meets] using h
  rw [mergePair, if_neg hlt]

/-- The loop adds up the seconds of the intervals it closes. -/
theorem closed_foldl_mergePair (rest : List (Int × Int)) (total : Rat) (last : Int × Int) :
    (rest.foldl mergePair ⟨total, last⟩).closed =
      addSeconds total (coalesceFrom meets joined last rest) := by
  refine coalesce_induction meets joined
    (M := fun last rest kept => ∀ total,
      (rest.foldl mergePair ⟨total, last⟩).closed = addSeconds total kept) ?_ ?_ ?_ last rest total
  · intro last total
    rfl
  · intro last p rest kept hmeets ih total
    rw [List.foldl_cons, mergePair_of_meets hmeets]
    exact ih total
  · intro last p rest kept hapart ih total
    rw [List.foldl_cons, mergePair_of_not_meets hapart]
    exact ih _

/-- The milliseconds that are computed before the fraction is dropped. -/
def computedMs (intervals : List (Option Int × Option Int)) : Rat :=
  roundDouble (addSeconds 0 (merged (validPairs intervals)) * 1000)

theorem computeIntervalUnionMs_eq (intervals : List (Option Int × Option Int)) :
    computeIntervalUnionMs intervals =
      if validPairs intervals = [] then none
      else some (wholePart (computedMs intervals)) := by
  have hperm := List.perm_insertionSort (fun p q => p.1 ≤ q.1) (validPairs intervals)
  rw [computeIntervalUnionMs, computedMs, merged]
  cases hsort : (validPairs intervals).insertionSort fun p q => p.1 ≤ q.1 with
  | nil =>
      rw [hsort] at hperm
      rw [if_pos hperm.symm.eq_nil]
  | cons first rest =>
      rw [hsort] at hperm
      have hne : validPairs intervals ≠ [] := by
        rintro heq
        rw [heq] at hperm
        exact List.cons_ne_nil _ _ hperm.eq_nil
      rw [if_neg hne]
      simp only [closed_foldl_mergePair, coalesce]

theorem merged_covers_iff {A : Type} [LinearOrder A] {place : Int → A} (hmono : Monotone place)
    (pairs : List (Int × Int)) (x : A) :
    (∃ p ∈ merged pairs, place p.1 ≤ x ∧ x < place p.2) ↔
      ∃ p ∈ pairs, place p.1 ≤ x ∧ x < place p.2 := by
  have hsorted := List.pairwise_insertionSort (fun p q : Int × Int => p.1 ≤ q.1) pairs
  have hpass := @coalesce_covers_iff _ meets joined _ _ (fun p => place p.1) (fun p => place p.2)
    (fun _ _ => rfl) (fun _ _ => hmono.map_max) (fun _ _ h => hmono (by simpa [meets] using h)) _
    (hsorted.imp fun h => hmono h) x
  simpa only [merged, List.mem_insertionSort] using hpass

theorem merged_separated {pairs : List (Int × Int)} (h : ∀ p ∈ pairs, p.1 < p.2) :
    Separated (merged pairs) := by
  refine separated_of_isChain (coalesce_all ?_ ?_) ?_
  · intro p hp
    exact h p ((List.mem_insertionSort _).mp hp)
  · intro p q hp _ _
    exact hp.trans_le (le_max_left _ _)
  · have hchain : (merged pairs).IsChain fun p q => meets p q = false :=
      @coalesce_chain _ meets joined (fun _ _ _ => rfl) _
    exact hchain.imp fun p q hapart => by simpa [meets] using hapart

theorem merged_validPairs_separated (intervals : List (Option Int × Option Int)) :
    Separated (merged (validPairs intervals)) :=
  merged_separated fun _ hp => (mem_validPairs.mp hp).2

/-- Equal starts in another order merge to the same intervals. -/
theorem merged_perm {pairs pairs' : List (Int × Int)} (h : ∀ p ∈ pairs, p.1 < p.2)
    (hperm : pairs'.Perm pairs) : merged pairs' = merged pairs := by
  refine (merged_separated fun p hp => h p (hperm.mem_iff.mp hp)).eq_of_covers
    (merged_separated h) fun x => ?_
  have hleft := merged_covers_iff monotone_id pairs' x
  have hright := merged_covers_iff monotone_id pairs x
  simp only [id_eq, hperm.mem_iff] at hleft hright
  exact hleft.trans hright.symm

end Merging

section Rounding

/-- The length of an interval in seconds. -/
def seconds (p : Int × Int) : Rat := ((p.2 - p.1 : Int) : Rat) / 1000000

theorem seconds_nonneg {p : Int × Int} (h : p.1 < p.2) : 0 ≤ seconds p :=
  div_nonneg (by exact_mod_cast (sub_nonneg.mpr h.le)) (by norm_num)

/-- Each further interval of the sum rounds once more. -/
theorem addSeconds_within {kept : List (Int × Int)} (h : ∀ p ∈ kept, p.1 < p.2) {k : Nat}
    (hk : 1 ≤ k) {exact total : Rat} (hexact : 0 ≤ exact) (htotal : Within k exact total) :
    Within (k + kept.length) (exact + (kept.map seconds).sum) (addSeconds total kept) := by
  induction kept generalizing k exact total with
  | nil => simpa [addSeconds] using htotal
  | cons p kept ih =>
      have hp : 0 ≤ seconds p := seconds_nonneg (h p List.mem_cons_self)
      have hlen : Within k (seconds p) (totalSeconds p) :=
        ((within_self (seconds p)).round hp).mono hp hk
      have hnext : Within (k + 1) (exact + seconds p) (roundDouble (total + totalSeconds p)) :=
        (htotal.add hlen).round (add_nonneg hexact hp)
      have hrest := ih (fun q hq => h q (List.mem_cons_of_mem p hq)) (hk.trans (Nat.le_succ k))
        (add_nonneg hexact hp) hnext
      have hcount : k + (p :: kept).length = k + 1 + kept.length := by
        rw [List.length_cons]
        omega
      rw [hcount, List.map_cons, List.sum_cons, ← add_assoc]
      exact hrest

theorem length_merged_le (pairs : List (Int × Int)) : (merged pairs).length ≤ pairs.length := by
  have hsub := @coalesce_sublist _ meets joined _ Prod.fst (fun _ _ => rfl)
    (pairs.insertionSort fun p q => p.1 ≤ q.1)
  simpa [merged] using hsub.length_le

theorem sum_seconds_nonneg (intervals : List (Option Int × Option Int)) :
    0 ≤ ((merged (validPairs intervals)).map seconds).sum := by
  refine List.sum_nonneg fun d hd => ?_
  obtain ⟨p, hp, rfl⟩ := List.mem_map.mp hd
  exact seconds_nonneg ((merged_validPairs_separated intervals).proper p hp)

theorem computedMs_within (intervals : List (Option Int × Option Int)) :
    Within ((validPairs intervals).length + 2)
      (((merged (validPairs intervals)).map seconds).sum * 1000) (computedMs intervals) := by
  have hproper := (merged_validPairs_separated intervals).proper
  have hsum := addSeconds_within hproper le_rfl le_rfl ((within_self 0).mono le_rfl (Nat.zero_le 1))
  have hnonneg := sum_seconds_nonneg intervals
  rw [zero_add] at hsum
  have hthousand : (0 : Rat) ≤ 1000 := by norm_num
  refine ((hsum.mul hthousand).round (mul_nonneg hnonneg hthousand)).mono
    (mul_nonneg hnonneg hthousand) ?_
  have hle := length_merged_le (validPairs intervals)
  omega

end Rounding

section Measure

open MeasureTheory

/-- The instants within an interval whose end is after its start. -/
def coveredInstants (intervals : List (Option Int × Option Int)) : Set Real :=
  {x | ∃ start stop : Int, (some start, some stop) ∈ intervals ∧ start ≤ x ∧ x < stop}

/-- The measure of the union of the intervals, in milliseconds. -/
noncomputable def unionMs (intervals : List (Option Int × Option Int)) : Real :=
  (volume (coveredInstants intervals)).toReal / 1000

theorem coveredInstants_eq (intervals : List (Option Int × Option Int)) :
    coveredInstants intervals =
      ⋃ p ∈ (merged (validPairs intervals)).map fun p : Int × Int => ((p.1 : Real), (p.2 : Real)),
        Set.Ico p.1 p.2 := by
  ext x
  have hmerged := merged_covers_iff (Int.cast_mono (R := Real)) (validPairs intervals) x
  simp only [Set.mem_iUnion, List.mem_map, Set.mem_Ico, exists_prop, exists_exists_and_eq_and]
  rw [hmerged]
  constructor
  · rintro ⟨start, stop, hmem, hx, hx'⟩
    have hlt : start < stop := by exact_mod_cast hx.trans_lt hx'
    exact ⟨(start, stop), mem_validPairs.mpr ⟨hmem, hlt⟩, hx, hx'⟩
  · rintro ⟨p, hp, hx, hx'⟩
    exact ⟨p.1, p.2, (mem_validPairs.mp hp).1, hx, hx'⟩

theorem sum_lengths_eq (kept : List (Int × Int)) :
    (kept.map fun p => (p.2 : Real) - p.1).sum / 1000 = ((kept.map seconds).sum * 1000 : Rat) := by
  induction kept with
  | nil => simp
  | cons p kept ih =>
      have hp : ((p.2 : Real) - p.1) / 1000 = (seconds p * 1000 : Rat) := by
        rw [seconds]
        push_cast
        ring
      rw [List.map_cons, List.sum_cons, List.map_cons, List.sum_cons, add_div, ih, hp]
      push_cast
      ring

theorem unionMs_eq (intervals : List (Option Int × Option Int)) :
    unionMs intervals = (((merged (validPairs intervals)).map seconds).sum * 1000 : Rat) := by
  have hkept := merged_validPairs_separated intervals
  have hreal : Separated ((merged (validPairs intervals)).map
      fun p : Int × Int => ((p.1 : Real), (p.2 : Real))) := by
    constructor
    · intro q hq
      obtain ⟨p, hp, rfl⟩ := List.mem_map.mp hq
      exact Int.cast_lt.mpr (hkept.proper p hp)
    · rw [List.pairwise_map]
      exact hkept.apart.imp fun h => Int.cast_lt.mpr h
  have hnonneg : 0 ≤ ((merged (validPairs intervals)).map
      fun p : Int × Int => (p.2 : Real) - p.1).sum := by
    refine List.sum_nonneg fun d hd => ?_
    obtain ⟨p, hp, rfl⟩ := List.mem_map.mp hd
    exact sub_nonneg.mpr (Int.cast_le.mpr (hkept.proper p hp).le)
  rw [← sum_lengths_eq, unionMs, coveredInstants_eq, hreal.volume_eq, List.map_map]
  congr 1
  exact ENNReal.toReal_ofReal hnonneg

/-- No interval gives no result, and otherwise whole milliseconds of the measure of the union,
up to one rounding for each valid interval and two more; the order of the list is no matter. -/
theorem computeIntervalUnionMs_measures (intervals : List (Option Int × Option Int)) :
    (computeIntervalUnionMs intervals = none ↔
      ∀ start stop, (some start, some stop) ∈ intervals → stop ≤ start) ∧
    (∀ ms, computeIntervalUnionMs intervals = some ms →
      unionMs intervals * (1 - 1 / 2 ^ 53) ^ ((validPairs intervals).length + 2) - 1 < ms ∧
      ms ≤ unionMs intervals * (1 + 1 / 2 ^ 53) ^ ((validPairs intervals).length + 2)) ∧
    ∀ intervals', intervals'.Perm intervals →
      computeIntervalUnionMs intervals' = computeIntervalUnionMs intervals := by
  refine ⟨?_, ?_, ?_⟩
  · rw [computeIntervalUnionMs_eq, ← validPairs_eq_nil_iff]
    split_ifs with h <;> simp [h]
  · intro ms hms
    have hwithin := computedMs_within intervals
    have hexact := mul_nonneg (sum_seconds_nonneg intervals) (by norm_num : (0 : Rat) ≤ 1000)
    have hfloor : ms = ⌊computedMs intervals⌋ := by
      rw [computeIntervalUnionMs_eq] at hms
      split_ifs at hms
      rw [← wholePart_of_nonneg (hwithin.nonneg hexact)]
      exact (Option.some.inj hms).symm
    have hlow : (((1 - 1 / 2 ^ 53) ^ ((validPairs intervals).length + 2) *
        (((merged (validPairs intervals)).map seconds).sum * 1000) : Rat) : Real) <
        (ms + 1 : Rat) := by
      rw [Rat.cast_lt, hfloor]
      exact hwithin.low.trans_lt (Int.lt_floor_add_one _)
    have hhigh : ((ms : Rat) : Real) ≤ ((1 + 1 / 2 ^ 53) ^ ((validPairs intervals).length + 2) *
        (((merged (validPairs intervals)).map seconds).sum * 1000) : Rat) := by
      rw [Rat.cast_le, hfloor]
      exact (Int.floor_le _).trans hwithin.high
    rw [unionMs_eq]
    push_cast at hlow hhigh ⊢
    constructor <;> linarith
  · intro intervals' hperm
    have hpairs : (validPairs intervals').Perm (validPairs intervals) := hperm.filterMap validPair
    have hmerged := merged_perm (fun p hp => (mem_validPairs.mp hp).2) hpairs
    simp only [computeIntervalUnionMs_eq, computedMs, hmerged, ← List.isEmpty_iff,
      hpairs.isEmpty_eq]

/-- Floating point seconds lose a millisecond. -/
theorem whole_millisecond_lost :
    computeIntervalUnionMs [(some 0, some 1001000)] = some 1000 ∧
      unionMs [(some 0, some 1001000)] = 1001 := by
  refine ⟨by decide +kernel, ?_⟩
  have hkept : merged (validPairs [(some 0, some 1001000)]) = [(0, 1001000)] := by decide
  rw [unionMs_eq, hkept]
  norm_num [seconds]

end Measure

end Dalston.Gateway.IntervalUnion
