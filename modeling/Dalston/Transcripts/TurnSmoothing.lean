import Dalston.Transcripts.SpeakerWindows

/-!
# Smoothing of the speaker turns

Diarization may change between speakers many times in a second. A turn shorter than a
minimum is absorbed by the kept turn before it or after it, whichever overlaps it more
or is longer, and turns of one speaker that touch afterwards become one.

## Implementation notes

The source keeps the long turns in a list of their own, with a map from their places
among the sorted turns. Here every sorted turn has a slot, which is empty once the turn
is to be absorbed.
-/

namespace Dalston.Transcripts

open Foundation

def MIN_TURN_DURATION_S : Rat := 1 / 4

def SpeakerTurn.duration (turn : SpeakerTurn) : Rat := turn.end - turn.start

/-- `(t.start, t.end)` in the order of tuples. -/
def turnBefore (t u : SpeakerTurn) : Prop :=
  t.start < u.start ∨ t.start = u.start ∧ t.end ≤ u.end

instance (t u : SpeakerTurn) : Decidable (turnBefore t u) :=
  inferInstanceAs (Decidable (_ ∨ _))

def sortTurns (turns : List SpeakerTurn) : List SpeakerTurn := turns.insertionSort turnBefore

section Merge

def mergeable (prev turn : SpeakerTurn) : Bool :=
  turn.speaker = prev.speaker && decide (turn.start ≤ prev.end)

/-- The last turn is extended to the end of a turn that touches it. -/
def mergeTurn (prev turn : SpeakerTurn) : SpeakerTurn :=
  { prev with «end» := max prev.end turn.end }

/-- `_merge_adjacent_turns`. -/
def mergeAdjacentTurns (turns : List SpeakerTurn) : List SpeakerTurn :=
  coalesce mergeable mergeTurn turns

@[simp] theorem mergeTurn_start (t u : SpeakerTurn) : (mergeTurn t u).start = t.start := rfl

@[simp] theorem mergeTurn_speaker (t u : SpeakerTurn) : (mergeTurn t u).speaker = t.speaker := rfl

@[simp] theorem mergeTurn_end (t u : SpeakerTurn) : (mergeTurn t u).end = max t.end u.end := rfl

end Merge

section Absorb

/-- The turn kept at a place among the sorted turns. -/
def keptAt (slots : List (Option SpeakerTurn)) (idx : Nat) : Option SpeakerTurn := slots[idx]?.join

/-- The nearest place before the given one whose turn is kept. -/
def prevKept (slots : List (Option SpeakerTurn)) (idx : Nat) : Option Nat :=
  (List.range idx).reverse.find? fun p => (keptAt slots p).isSome

/-- The nearest place after the given one whose turn is kept. -/
def nextKept (slots : List (Option SpeakerTurn)) (idx : Nat) : Option Nat :=
  (List.range' (idx + 1) (slots.length - (idx + 1))).find? fun n => (keptAt slots n).isSome

/-- `_turn_overlap`. -/
def turnOverlap (a b : SpeakerTurn) : Rat := max 0 (min a.end b.end - max a.start b.start)

/-- The turn before wins if it overlaps the short turn more, or as much and is not shorter. -/
def prefersPrev (prev nxt micro : SpeakerTurn) : Bool :=
  if turnOverlap nxt micro < turnOverlap prev micro then true
  else if turnOverlap prev micro < turnOverlap nxt micro then false
  else nxt.duration ≤ prev.duration

/-- The place of the turn that absorbs a short turn. -/
def absorbingPlace (slots : List (Option SpeakerTurn)) (idx : Nat) (micro : SpeakerTurn) :
    Option Nat :=
  match prevKept slots idx, nextKept slots idx with
  | some p, some n =>
      match keptAt slots p, keptAt slots n with
      | some prev, some nxt => if prefersPrev prev nxt micro then some p else some n
      | _, _ => none
  | some p, none => some p
  | none, some n => some n
  | none, none => none

/-- The kept turn is extended to cover the short one. -/
def extendTurn (target micro : SpeakerTurn) : SpeakerTurn :=
  { target with start := min target.start micro.start, «end» := max target.end micro.end }

def absorb (slots : List (Option SpeakerTurn)) (micro : SpeakerTurn × Nat) :
    List (Option SpeakerTurn) :=
  match absorbingPlace slots micro.2 micro.1 with
  | some place => slots.modify place fun slot => slot.map (extendTurn · micro.1)
  | none => slots

/-- The place of the first of the longest turns. -/
def longestPlace (sorted : List SpeakerTurn) : Nat :=
  sorted.findIdx fun t => sorted.all fun u => u.duration ≤ t.duration

/-- The long turns in their slots, or the longest one if none is long enough. -/
def keptSlots (minDuration : Rat) (sorted : List SpeakerTurn) : List (Option SpeakerTurn) :=
  if sorted.any fun t => minDuration ≤ t.duration then
    sorted.map fun t => if minDuration ≤ t.duration then some t else none
  else sorted.mapIdx fun idx t => if idx = longestPlace sorted then some t else none

/-- The turns whose slots are empty, with their places. -/
def absorbed (slots : List (Option SpeakerTurn)) (sorted : List SpeakerTurn) :
    List (SpeakerTurn × Nat) :=
  sorted.zipIdx.filter fun t => (keptAt slots t.2).isNone

/-- `_smooth_diarization_turns`. -/
def smoothDiarizationTurns (turns : List SpeakerTurn) (minDuration : Rat) : List SpeakerTurn :=
  if turns = [] ∨ minDuration ≤ 0 then turns
  else if (sortTurns turns).all fun t => minDuration ≤ t.duration then
    mergeAdjacentTurns (sortTurns turns)
  else
    let slots := keptSlots minDuration (sortTurns turns)
    let kept := (absorbed slots (sortTurns turns)).foldl absorb slots
    mergeAdjacentTurns (sortTurns kept.reduceOption)

end Absorb

section Places

variable {slots slots' : List (Option SpeakerTurn)} {idx place : Nat} {micro : SpeakerTurn}

theorem isSome_of_prevKept (h : prevKept slots idx = some place) :
    (keptAt slots place).isSome := by
  simpa using List.find?_some h

theorem isSome_of_nextKept (h : nextKept slots idx = some place) :
    (keptAt slots place).isSome := by
  simpa using List.find?_some h

theorem keptAt_eq_none_of_le (h : slots.length ≤ place) : keptAt slots place = none := by
  simp [keptAt, List.getElem?_eq_none h]

/-- A short turn finds no kept turn only if no turn is kept. -/
theorem keptAt_eq_none_of_alone (hprev : prevKept slots idx = none)
    (hnext : nextKept slots idx = none) (hidx : keptAt slots idx = none) (place : Nat) :
    keptAt slots place = none := by
  simp only [prevKept, nextKept, List.find?_eq_none, List.mem_reverse, List.mem_range,
    List.mem_range'_1, Option.not_isSome_iff_eq_none] at hprev hnext
  rcases Nat.lt_trichotomy place idx with hlt | rfl | hgt
  · exact hprev place hlt
  · exact hidx
  · rcases Nat.lt_or_ge place slots.length with hin | hout
    · exact hnext place ⟨hgt, by omega⟩
    · exact keptAt_eq_none_of_le hout

theorem isSome_of_absorbingPlace (h : absorbingPlace slots idx micro = some place) :
    (keptAt slots place).isSome := by
  unfold absorbingPlace at h
  split at h
  · rename_i p n hprev hnext
    split at h
    · split at h
      · cases h
        exact isSome_of_prevKept hprev
      · cases h
        exact isSome_of_nextKept hnext
    · cases h
  · rename_i p hprev _
    cases h
    exact isSome_of_prevKept hprev
  · rename_i n _ hnext
    cases h
    exact isSome_of_nextKept hnext
  · cases h

/-- A short turn is absorbed as long as some turn is kept. -/
theorem absorbingPlace_isSome (hidx : keptAt slots idx = none) (hkept : (keptAt slots place).isSome) :
    (absorbingPlace slots idx micro).isSome := by
  unfold absorbingPlace
  split
  · rename_i p n hprev hnext
    obtain ⟨prev, hp⟩ := Option.isSome_iff_exists.mp (isSome_of_prevKept hprev)
    obtain ⟨nxt, hn⟩ := Option.isSome_iff_exists.mp (isSome_of_nextKept hnext)
    simp only [hp, hn]
    split <;> rfl
  · rfl
  · rfl
  · rename_i hprev hnext
    rw [keptAt_eq_none_of_alone hprev hnext hidx place] at hkept
    cases hkept

theorem keptAt_modify (slots : List (Option SpeakerTurn)) (place idx : Nat)
    (f : SpeakerTurn → SpeakerTurn) :
    keptAt (slots.modify place fun slot => slot.map f) idx =
      if place = idx then (keptAt slots idx).map f else keptAt slots idx := by
  unfold keptAt
  rw [List.getElem?_modify]
  cases slots[idx]? with
  | none => split <;> rfl
  | some slot => split <;> rfl

end Places

section Growth

/-- The turn has been extended at most. -/
structure Grown (t t' : SpeakerTurn) : Prop where
  speaker : t'.speaker = t.speaker
  start : t'.start ≤ t.start
  «end» : t.end ≤ t'.end

theorem Grown.refl (t : SpeakerTurn) : Grown t t := ⟨rfl, le_rfl, le_rfl⟩

theorem Grown.trans {t t' t'' : SpeakerTurn} (h : Grown t t') (h' : Grown t' t'') : Grown t t'' :=
  ⟨h'.speaker.trans h.speaker, h'.start.trans h.start, h.end.trans h'.end⟩

theorem Grown.duration {t t' : SpeakerTurn} (h : Grown t t') : t.duration ≤ t'.duration := by
  have hstart := h.start
  have hend := h.end
  unfold SpeakerTurn.duration
  linarith

theorem grown_extendTurn (target micro : SpeakerTurn) : Grown target (extendTurn target micro) :=
  ⟨rfl, min_le_left _ _, le_max_left _ _⟩

theorem grown_mergeTurn (prev turn : SpeakerTurn) : Grown prev (mergeTurn prev turn) :=
  ⟨rfl, le_rfl, le_max_left _ _⟩

/-- The same places are kept, and their turns have been extended at most. -/
def SlotsGrown (slots slots' : List (Option SpeakerTurn)) : Prop :=
  ∀ idx, Option.Rel Grown (keptAt slots idx) (keptAt slots' idx)

theorem SlotsGrown.refl (slots : List (Option SpeakerTurn)) : SlotsGrown slots slots := by
  intro idx
  cases keptAt slots idx with
  | none => exact Option.Rel.none
  | some t => exact Option.Rel.some (Grown.refl t)

theorem SlotsGrown.trans {slots slots' slots'' : List (Option SpeakerTurn)}
    (h : SlotsGrown slots slots') (h' : SlotsGrown slots' slots'') : SlotsGrown slots slots'' := by
  intro idx
  have hidx := h idx
  have hidx' := h' idx
  generalize keptAt slots'' idx = t'' at hidx' ⊢
  generalize keptAt slots' idx = t' at hidx hidx'
  generalize keptAt slots idx = t at hidx ⊢
  cases hidx with
  | none => exact hidx'
  | some hgrown =>
      cases hidx' with
      | some hgrown' => exact Option.Rel.some (hgrown.trans hgrown')

theorem SlotsGrown.eq_none {slots slots' : List (Option SpeakerTurn)} (h : SlotsGrown slots slots')
    {idx : Nat} (hnone : keptAt slots idx = none) : keptAt slots' idx = none := by
  have hidx := h idx
  rw [hnone] at hidx
  generalize keptAt slots' idx = t' at hidx ⊢
  cases hidx
  rfl

theorem SlotsGrown.after {slots slots' : List (Option SpeakerTurn)} (h : SlotsGrown slots slots')
    {idx : Nat} {t : SpeakerTurn} (hkept : keptAt slots idx = some t) :
    ∃ t', keptAt slots' idx = some t' ∧ Grown t t' := by
  have hidx := h idx
  rw [hkept] at hidx
  generalize keptAt slots' idx = t' at hidx ⊢
  cases hidx with
  | some hgrown => exact ⟨_, rfl, hgrown⟩

theorem SlotsGrown.before {slots slots' : List (Option SpeakerTurn)} (h : SlotsGrown slots slots')
    {idx : Nat} {t' : SpeakerTurn} (hkept : keptAt slots' idx = some t') :
    ∃ t, keptAt slots idx = some t ∧ Grown t t' := by
  have hidx := h idx
  rw [hkept] at hidx
  generalize keptAt slots idx = t at hidx ⊢
  cases hidx with
  | some hgrown => exact ⟨_, rfl, hgrown⟩

/-- A kept turn covers the given one. -/
def Held (slots : List (Option SpeakerTurn)) (turn : SpeakerTurn) : Prop :=
  ∃ idx t, keptAt slots idx = some t ∧ t.start ≤ turn.start ∧ turn.end ≤ t.end

theorem Held.grown {slots slots' : List (Option SpeakerTurn)} {turn : SpeakerTurn}
    (hheld : Held slots turn) (h : SlotsGrown slots slots') : Held slots' turn := by
  obtain ⟨idx, t, hkept, hstart, hend⟩ := hheld
  obtain ⟨t', hkept', hgrown⟩ := h.after hkept
  exact ⟨idx, t', hkept', hgrown.start.trans hstart, hend.trans hgrown.end⟩

variable {slots : List (Option SpeakerTurn)}

theorem slotsGrown_absorb (slots : List (Option SpeakerTurn)) (micro : SpeakerTurn × Nat) :
    SlotsGrown slots (absorb slots micro) := by
  unfold absorb
  split
  · intro idx
    rw [keptAt_modify]
    split
    · cases keptAt slots idx with
      | none => exact Option.Rel.none
      | some t => exact Option.Rel.some (grown_extendTurn t micro.1)
    · exact SlotsGrown.refl slots idx
  · exact SlotsGrown.refl slots

/-- The turn that absorbs a short one covers it. -/
theorem held_absorb {micro : SpeakerTurn × Nat} {place : Nat}
    (hidx : keptAt slots micro.2 = none) (hkept : (keptAt slots place).isSome) :
    Held (absorb slots micro) micro.1 := by
  have hfound : (absorbingPlace slots micro.2 micro.1).isSome := absorbingPlace_isSome hidx hkept
  obtain ⟨target, htarget⟩ := Option.isSome_iff_exists.mp hfound
  obtain ⟨t, ht⟩ := Option.isSome_iff_exists.mp (isSome_of_absorbingPlace htarget)
  refine ⟨target, extendTurn t micro.1, ?_, min_le_right _ _, le_max_right _ _⟩
  rw [absorb, htarget]
  simp only [keptAt_modify, ht, if_pos]
  rfl

theorem slotsGrown_foldl (micros : List (SpeakerTurn × Nat)) (slots : List (Option SpeakerTurn)) :
    SlotsGrown slots (micros.foldl absorb slots) := by
  induction micros generalizing slots with
  | nil => exact SlotsGrown.refl slots
  | cons micro rest ih => exact (slotsGrown_absorb slots micro).trans (ih _)

/-- After the pass over the short turns, each of them is covered by a kept one. -/
theorem held_foldl {micros : List (SpeakerTurn × Nat)} {place : Nat}
    (hmicros : ∀ micro ∈ micros, keptAt slots micro.2 = none)
    (hkept : (keptAt slots place).isSome) {micro : SpeakerTurn × Nat} (hmem : micro ∈ micros) :
    Held (micros.foldl absorb slots) micro.1 := by
  induction micros generalizing slots with
  | nil => cases hmem
  | cons first rest ih =>
      have hgrown := slotsGrown_absorb slots first
      rcases List.mem_cons.mp hmem with rfl | hmem
      · exact (held_absorb (hmicros micro List.mem_cons_self) hkept).grown
          (slotsGrown_foldl rest _)
      · refine ih (fun m hm => ?_) ?_ hmem
        · exact hgrown.eq_none (hmicros m (List.mem_cons_of_mem _ hm))
        · obtain ⟨t, ht⟩ := Option.isSome_iff_exists.mp hkept
          obtain ⟨t', ht', -⟩ := hgrown.after ht
          simp [ht']

end Growth

section Slots

variable {sorted : List SpeakerTurn} {minDuration : Rat} {idx : Nat} {t : SpeakerTurn}

theorem keptAt_eq_some {slots : List (Option SpeakerTurn)} :
    keptAt slots idx = some t ↔ slots[idx]? = some (some t) := by
  simp [keptAt, Option.join_eq_some_iff]

theorem mem_reduceOption_of_keptAt {slots : List (Option SpeakerTurn)}
    (h : keptAt slots idx = some t) : t ∈ slots.reduceOption :=
  List.reduceOption_mem_iff.mpr (List.mem_of_getElem? (keptAt_eq_some.mp h))

theorem exists_keptAt_of_mem {slots : List (Option SpeakerTurn)} (h : t ∈ slots.reduceOption) :
    ∃ idx, keptAt slots idx = some t := by
  obtain ⟨idx, hidx⟩ := List.mem_iff_getElem?.mp (List.reduceOption_mem_iff.mp h)
  exact ⟨idx, keptAt_eq_some.mpr hidx⟩

/-- Some turn is the longest. -/
theorem longestPlace_lt (h : sorted ≠ []) : longestPlace sorted < sorted.length := by
  obtain ⟨u, hu⟩ := List.exists_mem_of_ne_nil _ h
  obtain ⟨t, ht, hmax⟩ := sorted.toFinset.exists_max_image SpeakerTurn.duration
    ⟨u, List.mem_toFinset.mpr hu⟩
  refine List.findIdx_lt_length_of_exists ⟨t, List.mem_toFinset.mp ht, ?_⟩
  simpa using fun u hu => hmax u (List.mem_toFinset.mpr hu)

/-- A kept turn is the sorted turn of its place, and long enough if any turn is. -/
theorem keptSlots_sound (h : keptAt (keptSlots minDuration sorted) idx = some t) :
    sorted[idx]? = some t ∧
      ((∃ u ∈ sorted, minDuration ≤ u.duration) → minDuration ≤ t.duration) := by
  rw [keptAt_eq_some] at h
  unfold keptSlots at h
  split at h
  · rw [List.getElem?_map, Option.map_eq_some_iff] at h
    obtain ⟨u, hu, hkept⟩ := h
    split at hkept
    · rename_i hlong
      cases hkept
      exact ⟨hu, fun _ => hlong⟩
    · cases hkept
  · rename_i hshort
    rw [List.getElem?_mapIdx, Option.map_eq_some_iff] at h
    obtain ⟨u, hu, hkept⟩ := h
    split at hkept
    · cases hkept
      refine ⟨hu, fun ⟨u, hu, hlong⟩ => absurd ?_ hshort⟩
      exact List.any_eq_true.mpr ⟨u, hu, by simpa using hlong⟩
    · cases hkept

/-- Some turn is kept. -/
theorem exists_keptSlots (minDuration : Rat) (h : sorted ≠ []) :
    ∃ place, (keptAt (keptSlots minDuration sorted) place).isSome := by
  unfold keptSlots
  split
  · rename_i hlong
    obtain ⟨t, ht, hdur⟩ := List.any_eq_true.mp hlong
    obtain ⟨place, hplace⟩ := List.mem_iff_getElem?.mp ht
    have hdur' : minDuration ≤ t.duration := by simpa using hdur
    refine ⟨place, Option.isSome_iff_exists.mpr ⟨t, keptAt_eq_some.mpr ?_⟩⟩
    simp [hplace, hdur']
  · have hlt := longestPlace_lt h
    refine ⟨longestPlace sorted, Option.isSome_iff_exists.mpr ⟨sorted[longestPlace sorted], ?_⟩⟩
    exact keptAt_eq_some.mpr (by simp [hlt])

/-- After the absorption every sorted turn is covered by a kept one. -/
theorem held_of_mem (ht : t ∈ sorted) :
    Held ((absorbed (keptSlots minDuration sorted) sorted).foldl absorb
      (keptSlots minDuration sorted)) t := by
  obtain ⟨place, hplace⟩ := exists_keptSlots minDuration (List.ne_nil_of_mem ht)
  obtain ⟨idx, hidx⟩ := List.mem_iff_getElem?.mp ht
  set slots := keptSlots minDuration sorted
  cases hkept : keptAt slots idx with
  | none =>
      have hmem : (t, idx) ∈ absorbed slots sorted := by
        refine List.mem_filter.mpr ⟨?_, by simp [hkept]⟩
        exact List.mem_zipIdx_iff_getElem?.mpr hidx
      refine held_foldl (fun micro hmicro => ?_) hplace hmem
      simpa using (List.mem_filter.mp hmicro).2
  | some u =>
      have hu : u = t := Option.some.inj ((keptSlots_sound hkept).1.symm.trans hidx)
      have hheld : Held slots t := ⟨idx, u, hkept, by rw [hu], by rw [hu]⟩
      exact hheld.grown (slotsGrown_foldl _ _)

/-- A turn kept after the absorption is an extended turn of the input. -/
theorem grown_of_kept {turn : SpeakerTurn}
    (h : turn ∈ ((absorbed (keptSlots minDuration sorted) sorted).foldl absorb
      (keptSlots minDuration sorted)).reduceOption) :
    ∃ t ∈ sorted, Grown t turn ∧
      ((∃ u ∈ sorted, minDuration ≤ u.duration) → minDuration ≤ turn.duration) := by
  obtain ⟨idx, hidx⟩ := exists_keptAt_of_mem h
  obtain ⟨t, ht, hgrown⟩ := (slotsGrown_foldl _ _).before hidx
  obtain ⟨hsorted, hlong⟩ := keptSlots_sound ht
  exact ⟨t, List.mem_of_getElem? hsorted, hgrown, fun hany => (hlong hany).trans hgrown.duration⟩

end Slots

section Smoothing

variable {turns : List SpeakerTurn}

theorem mem_sortTurns {t : SpeakerTurn} : t ∈ sortTurns turns ↔ t ∈ turns :=
  List.mem_insertionSort _

theorem pairwise_sortTurns (turns : List SpeakerTurn) :
    (sortTurns turns).Pairwise fun t u => t.start ≤ u.start :=
  (List.pairwise_insertionSort (tupleLe SpeakerTurn.start SpeakerTurn.end) turns).imp
    tupleLe.first_le

/-- What smoothing keeps of its input. -/
structure Smoothed (turns : List SpeakerTurn) (minDuration : Rat) (smoothed : List SpeakerTurn) :
    Prop where
  sorted : 0 < minDuration → smoothed.Pairwise fun t u => t.start ≤ u.start
  covered : ∀ x, Covers SpeakerTurn.start SpeakerTurn.end turns x →
    Covers SpeakerTurn.start SpeakerTurn.end smoothed x
  speakers : ∀ t ∈ smoothed, ∃ u ∈ turns, t.speaker = u.speaker
  long : (∃ u ∈ turns, minDuration ≤ u.duration) → ∀ t ∈ smoothed, minDuration ≤ t.duration

/-- Merging sorted turns keeps what is covered, and each merged turn is an extended one. -/
theorem smoothed_mergeAdjacentTurns {kept : List SpeakerTurn} {minDuration : Rat}
    (hcovered : ∀ x, Covers SpeakerTurn.start SpeakerTurn.end turns x →
      Covers SpeakerTurn.start SpeakerTurn.end kept x)
    (hkept : ∀ t ∈ kept, (∃ u ∈ turns, t.speaker = u.speaker) ∧
      ((∃ u ∈ turns, minDuration ≤ u.duration) → minDuration ≤ t.duration)) :
    Smoothed turns minDuration (mergeAdjacentTurns (sortTurns kept)) := by
  have hall : ∀ t ∈ mergeAdjacentTurns (sortTurns kept), (∃ u ∈ turns, t.speaker = u.speaker) ∧
      ((∃ u ∈ turns, minDuration ≤ u.duration) → minDuration ≤ t.duration) := by
    refine coalesce_all (fun t ht => hkept t (mem_sortTurns.mp ht)) fun t u ht _ _ => ?_
    exact ⟨ht.1, fun hany => (ht.2 hany).trans (grown_mergeTurn t u).duration⟩
  refine ⟨fun _ => ?_, fun x hx => ?_, fun t ht => (hall t ht).1, fun hany t ht => (hall t ht).2 hany⟩
  · have hstarts : ((sortTurns kept).map SpeakerTurn.start).Pairwise (· ≤ ·) :=
      List.pairwise_map.mpr (pairwise_sortTurns kept)
    exact List.pairwise_map.mp (hstarts.sublist (coalesce_sublist mergeTurn_start _))
  · exact coalesce_covers mergeTurn_start mergeTurn_end (pairwise_sortTurns kept)
      ((hcovered x hx).perm (List.perm_insertionSort _ _).symm)

/-- A turn that is covered by a kept one covers nothing more. -/
theorem covers_of_held {kept : List SpeakerTurn} (h : ∀ t ∈ turns, ∃ u ∈ kept,
      u.start ≤ t.start ∧ t.end ≤ u.end) {x : Rat}
    (hx : Covers SpeakerTurn.start SpeakerTurn.end turns x) :
    Covers SpeakerTurn.start SpeakerTurn.end kept x := by
  obtain ⟨t, ht, hstart, hend⟩ := hx
  obtain ⟨u, hu, hustart, huend⟩ := h t ht
  exact ⟨u, hu, hustart.trans hstart, hend.trans huend⟩

/-- Smoothing keeps what the turns cover and leaves no short turn if any turn is long. -/
theorem smoothDiarizationTurns_smoothed (turns : List SpeakerTurn) (minDuration : Rat)
    (h : ∀ t ∈ turns, t.start ≤ t.end) :
    Smoothed turns minDuration (smoothDiarizationTurns turns minDuration) := by
  unfold smoothDiarizationTurns
  split
  · rename_i hskip
    refine ⟨fun hpos => ?_, fun _ hx => hx, fun t ht => ⟨t, ht, rfl⟩, fun _ t ht => ?_⟩
    · rcases hskip with rfl | hle
      · exact List.Pairwise.nil
      · exact absurd hle (not_le.mpr hpos)
    · rcases hskip with rfl | hle
      · cases ht
      · have hlen := h t ht
        unfold SpeakerTurn.duration
        linarith
  split
  · rename_i hlong
    refine smoothed_mergeAdjacentTurns (fun x hx => hx) fun t ht => ?_
    have hdur : minDuration ≤ t.duration := by
      simpa using List.all_eq_true.mp hlong t (mem_sortTurns.mpr ht)
    exact ⟨⟨t, ht, rfl⟩, fun _ => hdur⟩
  · refine smoothed_mergeAdjacentTurns (fun x hx => covers_of_held (fun t ht => ?_) hx)
      fun t ht => ?_
    · obtain ⟨idx, u, hkept, hstart, hend⟩ := held_of_mem (mem_sortTurns.mpr ht)
      exact ⟨u, mem_reduceOption_of_keptAt hkept, hstart, hend⟩
    · obtain ⟨u, hu, hgrown, hdur⟩ := grown_of_kept ht
      refine ⟨⟨u, mem_sortTurns.mp hu, hgrown.speaker⟩, fun ⟨v, hv, hlong⟩ => ?_⟩
      exact hdur ⟨v, mem_sortTurns.mpr hv, hlong⟩

/-- A long turn, a short one inside it and a short one of the next speaker after it. -/
def crosstalk : List SpeakerTurn :=
  [⟨"SPEAKER_01", 3, 31 / 10, none, none⟩, ⟨"SPEAKER_00", 0, 3, none, none⟩,
    ⟨"SPEAKER_01", 1, 11 / 10, none, none⟩]

theorem crosstalk_smoothed :
    Smoothed crosstalk MIN_TURN_DURATION_S
      (smoothDiarizationTurns crosstalk MIN_TURN_DURATION_S) :=
  smoothDiarizationTurns_smoothed crosstalk MIN_TURN_DURATION_S (by decide +kernel)

end Smoothing

end Dalston.Transcripts
