import Dalston.Foundation.Spans

/-!
# Speaker windows

Diarization gives the turns of the speakers, in any order and with any overlaps. The
boundaries of the turns cut a segment into windows, and each window gets the speaker
whose turn overlaps it most. Windows of one speaker that touch become one, so that a
window may take several turns of its speaker to be covered.

## Implementation notes

Times are rationals, and `round` and `max` are exact on them. A turn may end before it
starts; such a turn overlaps nothing.
-/

namespace Dalston.Transcripts

open Foundation

structure SpeakerTurn where
  speaker : String
  start : Rat
  «end» : Rat
  confidence : Option Rat := none
  overlappingSpeakers : Option (List String) := none
  deriving DecidableEq

section Lookup

/-- `max(0.0, overlap_end - overlap_start)`. -/
def overlap (segStart segEnd : Rat) (turn : SpeakerTurn) : Rat :=
  max 0 (min segEnd turn.end - max segStart turn.start)

def betterTurn (segStart segEnd : Rat) (best : Option String × Rat) (turn : SpeakerTurn) :
    Option String × Rat :=
  if best.2 < overlap segStart segEnd turn then
    (some turn.speaker, overlap segStart segEnd turn)
  else best

/-- `_find_speaker_by_overlap`. -/
def findSpeakerByOverlap (segStart segEnd : Rat) (turns : List SpeakerTurn) : Option String :=
  (turns.foldl (betterTurn segStart segEnd) (none, 0)).1

variable {segStart segEnd : Rat}

theorem overlap_pos {turn : SpeakerTurn} :
    0 < overlap segStart segEnd turn ↔
      max segStart turn.start < min segEnd turn.end := by
  rw [overlap, lt_max_iff]
  constructor
  · rintro (h | h)
    · exact absurd h (lt_irrefl 0)
    · linarith
  · intro h
    exact Or.inr (by linarith)

/-- The best turn so far is none, with no overlap, or one of the turns that overlap. -/
structure BestOf (segStart segEnd : Rat) (turns : List SpeakerTurn) (best : Option String × Rat) :
    Prop where
  nonneg : 0 ≤ best.2
  most : ∀ turn ∈ turns, overlap segStart segEnd turn ≤ best.2
  nobody : best.1 = none → best.2 = 0
  somebody : ∀ speaker ∈ best.1, ∃ turn ∈ turns, turn.speaker = speaker ∧
    0 < overlap segStart segEnd turn

theorem BestOf.better {turns : List SpeakerTurn} {best : Option String × Rat}
    (h : BestOf segStart segEnd turns best) (turn : SpeakerTurn) :
    BestOf segStart segEnd (turns ++ [turn]) (betterTurn segStart segEnd best turn) := by
  unfold betterTurn
  split
  · rename_i hlt
    have hpos : 0 < overlap segStart segEnd turn := h.nonneg.trans_lt hlt
    refine ⟨hpos.le, ?_, by simp, ?_⟩
    · intro u hu
      rcases List.mem_append.mp hu with hu | hu
      · exact (h.most u hu).trans hlt.le
      · rw [List.mem_singleton.mp hu]
    · intro speaker hspeaker
      exact ⟨turn, by simp, by simpa using hspeaker, hpos⟩
  · rename_i hle
    refine ⟨h.nonneg, ?_, h.nobody, ?_⟩
    · intro u hu
      rcases List.mem_append.mp hu with hu | hu
      · exact h.most u hu
      · rw [List.mem_singleton.mp hu]
        exact not_lt.mp hle
    · intro speaker hspeaker
      obtain ⟨u, hu, hfound⟩ := h.somebody speaker hspeaker
      exact ⟨u, List.mem_append_left _ hu, hfound⟩

theorem bestOf_foldl (segStart segEnd : Rat) (turns : List SpeakerTurn) :
    BestOf segStart segEnd turns (turns.foldl (betterTurn segStart segEnd) (none, 0)) := by
  induction turns using List.reverseRecOn with
  | nil => exact ⟨le_rfl, by simp, fun _ => rfl, by simp⟩
  | append_singleton turns turn ih =>
      rw [List.foldl_append]
      exact ih.better turn

/-- There is no speaker exactly when no turn overlaps. -/
theorem findSpeakerByOverlap_eq_none {turns : List SpeakerTurn} :
    findSpeakerByOverlap segStart segEnd turns = none ↔
      ∀ turn ∈ turns, ¬ 0 < overlap segStart segEnd turn := by
  have hbest := bestOf_foldl segStart segEnd turns
  constructor
  · intro h turn hturn
    exact not_lt.mpr ((hbest.most turn hturn).trans (hbest.nobody h).le)
  · intro h
    rw [findSpeakerByOverlap, Option.eq_none_iff_forall_not_mem]
    intro speaker hspeaker
    obtain ⟨turn, hturn, -, hpos⟩ := hbest.somebody speaker hspeaker
    exact h turn hturn hpos

/-- The speaker found has a turn that overlaps. -/
theorem overlaps_of_findSpeakerByOverlap {turns : List SpeakerTurn} {speaker : String}
    (h : findSpeakerByOverlap segStart segEnd turns = some speaker) :
    ∃ turn ∈ turns, turn.speaker = speaker ∧ 0 < overlap segStart segEnd turn :=
  (bestOf_foldl segStart segEnd turns).somebody speaker h

end Lookup

section Windows

structure Window where
  start : Rat
  «end» : Rat
  speaker : Option String

/-- The boundaries a turn adds, clipped to the segment. -/
def turnBoundaries (segStart segEnd : Rat) (turn : SpeakerTurn) : List Rat :=
  if turn.end ≤ segStart ∨ segEnd ≤ turn.start then []
  else [max segStart turn.start, min segEnd turn.end]

/-- The boundaries of the segment and of the turns that reach into it, sorted. -/
def orderedBoundaries (segStart segEnd : Rat) (turns : List SpeakerTurn) : List Rat :=
  (([segStart, segEnd] ++ turns.flatMap (turnBoundaries segStart segEnd)).dedup).insertionSort
    (· ≤ ·)

/-- The window between two boundaries. -/
def boundaryWindow (turns : List SpeakerTurn) (bounds : Rat × Rat) : Window where
  start := bounds.1
  «end» := bounds.2
  speaker := findSpeakerByOverlap bounds.1 bounds.2 turns

def sameSpeaker (v w : Window) : Bool := v.speaker = w.speaker

/-- The last window is extended to the end of the next one. -/
def extendWindow (v w : Window) : Window := { v with «end» := w.end }

theorem sameSpeaker_extendWindow (u v w : Window) :
    sameSpeaker u (extendWindow v w) = sameSpeaker u v := rfl

@[simp] theorem extendWindow_start (v w : Window) : (extendWindow v w).start = v.start := rfl

@[simp] theorem extendWindow_end (v w : Window) : (extendWindow v w).end = w.end := rfl

/-- Pairs of boundaries that follow each other. -/
def consecutive (ordered : List Rat) : List (Rat × Rat) :=
  (ordered.zip ordered.tail).filter fun bounds => bounds.1 < bounds.2

/-- `_build_speaker_windows`. -/
def buildSpeakerWindows (segStart segEnd : Rat) (turns : List SpeakerTurn) : List Window :=
  if segEnd ≤ segStart then []
  else
    coalesce sameSpeaker extendWindow
      ((consecutive (orderedBoundaries segStart segEnd turns)).map (boundaryWindow turns))

variable {segStart segEnd : Rat} {turns : List SpeakerTurn}

theorem mem_orderedBoundaries {b : Rat} :
    b ∈ orderedBoundaries segStart segEnd turns ↔
      b = segStart ∨ b = segEnd ∨ ∃ turn ∈ turns, b ∈ turnBoundaries segStart segEnd turn := by
  simp [orderedBoundaries, List.mem_insertionSort]

theorem pairwise_orderedBoundaries (segStart segEnd : Rat) (turns : List SpeakerTurn) :
    (orderedBoundaries segStart segEnd turns).Pairwise (· < ·) := by
  have hnodup : (orderedBoundaries segStart segEnd turns).Nodup :=
    (List.perm_insertionSort _ _).nodup_iff.mpr (List.nodup_dedup _)
  have hsorted : (orderedBoundaries segStart segEnd turns).Pairwise (· ≤ ·) :=
    List.pairwise_insertionSort _ _
  exact (hsorted.and hnodup).imp fun h => lt_of_le_of_ne h.1 h.2

/-- Every boundary lies in the segment. -/
theorem orderedBoundaries_within (h : segStart < segEnd) {b : Rat}
    (hb : b ∈ orderedBoundaries segStart segEnd turns) : segStart ≤ b ∧ b ≤ segEnd := by
  rcases mem_orderedBoundaries.mp hb with rfl | rfl | ⟨turn, -, hturn⟩
  · exact ⟨le_rfl, h.le⟩
  · exact ⟨h.le, le_rfl⟩
  · unfold turnBoundaries at hturn
    split at hturn
    · cases hturn
    · rename_i hreach
      simp only [not_or, not_le] at hreach
      simp only [List.mem_cons, List.not_mem_nil, or_false] at hturn
      rcases hturn with rfl | rfl
      · exact ⟨le_max_left _ _, max_le h.le hreach.2.le⟩
      · exact ⟨le_min h.le hreach.1.le, min_le_left _ _⟩

/-- A turn that overlaps the part between two consecutive boundaries covers it. -/
theorem covers_of_overlap (h : segStart < segEnd) {x y : Rat}
    (hxy : (x, y) ∈ (orderedBoundaries segStart segEnd turns).zip
      (orderedBoundaries segStart segEnd turns).tail)
    {turn : SpeakerTurn} (hturn : turn ∈ turns) (hpos : 0 < overlap x y turn) :
    turn.start ≤ x ∧ y ≤ turn.end := by
  have hsorted := pairwise_orderedBoundaries segStart segEnd turns
  obtain ⟨hx, hy⟩ := List.of_mem_zip hxy
  have hstart : segStart ≤ x := (orderedBoundaries_within h hx).1
  have hend : y ≤ segEnd := (orderedBoundaries_within h (List.mem_of_mem_tail hy)).2
  obtain ⟨hleft, hright⟩ := lt_min_iff.mp (overlap_pos.mp hpos)
  obtain ⟨hlt, hbefore⟩ := max_lt_iff.mp hleft
  obtain ⟨hafter, -⟩ := max_lt_iff.mp hright
  have hreach : ¬ (turn.end ≤ segStart ∨ segEnd ≤ turn.start) := by
    rintro (hstop | hstop)
    · linarith
    · linarith
  have hboundaries : turnBoundaries segStart segEnd turn =
      [max segStart turn.start, min segEnd turn.end] := by
    rw [turnBoundaries, if_neg hreach]
  constructor
  · have hmem : max segStart turn.start ∈ orderedBoundaries segStart segEnd turns :=
      mem_orderedBoundaries.mpr (Or.inr (Or.inr ⟨turn, hturn, by simp [hboundaries]⟩))
    rcases beside_of_mem_zip_tail hsorted hxy hmem with hle | hge
    · exact (le_max_right _ _).trans hle
    · rcases le_max_iff.mp hge with hge | hge <;> linarith
  · have hmem : min segEnd turn.end ∈ orderedBoundaries segStart segEnd turns :=
      mem_orderedBoundaries.mpr (Or.inr (Or.inr ⟨turn, hturn, by simp [hboundaries]⟩))
    rcases beside_of_mem_zip_tail hsorted hxy hmem with hle | hge
    · rcases min_le_iff.mp hle with hle | hle <;> linarith
    · exact hge.trans (min_le_right _ _)

/-- The windows between consecutive boundaries, before windows of one speaker are joined. -/
theorem tiles_boundaryWindows (h : segStart < segEnd) :
    Tiles Window.start Window.end segStart segEnd
      ((consecutive (orderedBoundaries segStart segEnd turns)).map (boundaryWindow turns)) := by
  set ordered := orderedBoundaries segStart segEnd turns with hordered
  have hsorted : ordered.Pairwise (· < ·) := pairwise_orderedBoundaries segStart segEnd turns
  have hfirst : segStart ∈ ordered := mem_orderedBoundaries.mpr (Or.inl rfl)
  have hlast : segEnd ∈ ordered := mem_orderedBoundaries.mpr (Or.inr (Or.inl rfl))
  have hne : ordered ≠ [] := List.ne_nil_of_mem hfirst
  have htiles := tiles_zip_tail hsorted hne
  have hhead : ordered.head hne = segStart := by
    refine le_antisymm ?_ (orderedBoundaries_within h (List.head_mem hne)).1
    exact (hsorted.imp le_of_lt).rel_head hfirst
  have hend : ordered.getLast hne = segEnd := by
    refine le_antisymm (orderedBoundaries_within h (List.getLast_mem hne)).2 ?_
    exact (hsorted.imp le_of_lt).rel_getLast hlast
  rw [hhead, hend] at htiles
  have hfilter : consecutive ordered = ordered.zip ordered.tail := by
    refine List.filter_eq_self.mpr fun bounds hbounds => ?_
    simpa using (htiles.within hbounds).2.1
  rw [hfilter]
  exact tiles_map.mpr htiles

/-- The turns of its speaker cover a window, and without a speaker no turn overlaps it. -/
structure Window.Spoken (turns : List SpeakerTurn) (w : Window) : Prop where
  covered : ∀ speaker ∈ w.speaker,
    ∀ x, w.start ≤ x → x ≤ w.end →
      ∃ turn ∈ turns, turn.speaker = speaker ∧ turn.start ≤ x ∧ x ≤ turn.end
  silent : w.speaker = none ↔ ∀ turn ∈ turns, ¬ 0 < overlap w.start w.end turn

/-- The window between two consecutive boundaries is covered by one turn of its speaker. -/
theorem spoken_boundaryWindow (h : segStart < segEnd) {bounds : Rat × Rat}
    (hbounds : bounds ∈ (orderedBoundaries segStart segEnd turns).zip
      (orderedBoundaries segStart segEnd turns).tail) :
    (boundaryWindow turns bounds).Spoken turns := by
  constructor
  · intro speaker hspeaker x hx hx'
    obtain ⟨turn, hturn, hname, hpos⟩ := overlaps_of_findSpeakerByOverlap hspeaker
    obtain ⟨hstart, hend⟩ := covers_of_overlap h hbounds hturn hpos
    exact ⟨turn, hturn, hname, hstart.trans hx, hx'.trans hend⟩
  · exact findSpeakerByOverlap_eq_none

/-- A longer window overlaps at least as much. -/
theorem overlap_mono {x y x' y' : Rat} {turn : SpeakerTurn} (hx : x' ≤ x) (hy : y ≤ y')
    (h : 0 < overlap x y turn) : 0 < overlap x' y' turn := by
  rw [overlap_pos] at h ⊢
  exact (max_le_max hx le_rfl).trans_lt (h.trans_le (min_le_min hy le_rfl))

/-- A turn that overlaps two windows in a row overlaps one of them. -/
theorem overlap_split {x y z : Rat} {turn : SpeakerTurn} (hxy : x < y) (hyz : y < z)
    (h : 0 < overlap x z turn) : 0 < overlap x y turn ∨ 0 < overlap y z turn := by
  simp only [overlap_pos, max_lt_iff, lt_min_iff] at h ⊢
  obtain ⟨⟨hxz, hz⟩, hx, hturn⟩ := h
  rcases lt_or_ge turn.start y with hstart | hstart
  · exact Or.inl ⟨⟨hxy, hstart⟩, hx, hturn⟩
  · exact Or.inr ⟨⟨hyz, hz⟩, hstart.trans_lt hturn, hturn⟩

theorem Window.Spoken.extend {v w : Window} (hv : v.Spoken turns) (hw : w.Spoken turns)
    (hvlt : v.start < v.end) (hwlt : w.start < w.end) (hrow : v.end = w.start)
    (hsame : sameSpeaker v w = true) : (extendWindow v w).Spoken turns := by
  have hname : v.speaker = w.speaker := by simpa [sameSpeaker] using hsame
  constructor
  · intro speaker hspeaker x hx hx'
    rcases le_total x v.end with hle | hge
    · exact hv.covered speaker hspeaker x hx hle
    · exact hw.covered speaker (hname ▸ hspeaker) x (hrow ▸ hge) hx'
  · constructor
    · intro hnone turn hturn hpos
      rcases overlap_split hvlt (hrow ▸ hwlt) hpos with hpos | hpos
      · exact hv.silent.mp hnone turn hturn hpos
      · exact hw.silent.mp (hname ▸ hnone) turn hturn (hrow ▸ hpos)
    · intro hquiet
      refine hv.silent.mpr fun turn hturn hpos => hquiet turn hturn ?_
      exact overlap_mono le_rfl (hrow ▸ hwlt.le) hpos

/-- The windows of a segment follow each other from its start to its end. -/
theorem tiles_buildSpeakerWindows (h : segStart < segEnd) :
    Tiles Window.start Window.end segStart segEnd
      (buildSpeakerWindows segStart segEnd turns) := by
  rw [buildSpeakerWindows, if_neg (not_le.mpr h)]
  exact (tiles_boundaryWindows h).coalesce extendWindow_start extendWindow_end

theorem spoken_buildSpeakerWindows {w : Window}
    (hw : w ∈ buildSpeakerWindows segStart segEnd turns) : w.Spoken turns := by
  unfold buildSpeakerWindows at hw
  split at hw
  · cases hw
  · rename_i hlt
    rw [not_le] at hlt
    refine (coalesce_all_of_chain (K := fun w => w.Spoken turns ∧ w.start < w.end) ?_
      (tiles_boundaryWindows hlt).isChain ?_ ?_ w hw).1
    · intro v hv
      obtain ⟨bounds, hbounds, rfl⟩ := List.mem_map.mp hv
      obtain ⟨hmem, hlen⟩ := List.mem_filter.mp hbounds
      have hlen' : bounds.1 < bounds.2 := by simpa using hlen
      exact ⟨spoken_boundaryWindow hlt hmem, hlen'⟩
    · exact fun _ _ _ _ hrow => hrow
    · intro u v hu hv hrow hsame
      exact ⟨hu.1.extend hv.1 hu.2 hv.2 hrow hsame, hu.2.trans (hrow ▸ hv.2)⟩

/-- Windows that follow each other have different speakers. -/
theorem changes_buildSpeakerWindows (segStart segEnd : Rat) (turns : List SpeakerTurn) :
    (buildSpeakerWindows segStart segEnd turns).IsChain fun v w => v.speaker ≠ w.speaker := by
  unfold buildSpeakerWindows
  split
  · exact List.IsChain.nil
  · have hchanges := coalesce_chain sameSpeaker_extendWindow
      ((consecutive (orderedBoundaries segStart segEnd turns)).map (boundaryWindow turns))
    exact hchanges.imp fun v w hapart => by simpa [sameSpeaker] using hapart

/-- The windows of a segment: a partition whose speaker changes at every boundary. -/
structure SpeakerPartition (segStart segEnd : Rat) (turns : List SpeakerTurn)
    (windows : List Window) : Prop where
  empty : segEnd ≤ segStart → windows = []
  tiles : segStart < segEnd → Tiles Window.start Window.end segStart segEnd windows
  changes : windows.IsChain fun v w => v.speaker ≠ w.speaker
  spoken : ∀ w ∈ windows, w.Spoken turns

/-- The windows of any segment under any turns partition it by speaker. -/
theorem buildSpeakerWindows_partition (segStart segEnd : Rat) (turns : List SpeakerTurn) :
    SpeakerPartition segStart segEnd turns (buildSpeakerWindows segStart segEnd turns) where
  empty h := by rw [buildSpeakerWindows, if_pos h]
  tiles h := tiles_buildSpeakerWindows h
  changes := changes_buildSpeakerWindows segStart segEnd turns
  spoken _ hw := spoken_buildSpeakerWindows hw

/-- A window may be covered by several turns of its speaker and by none of them alone. -/
theorem window_of_two_turns : ¬ ∀ (segStart segEnd : Rat) (turns : List SpeakerTurn),
    ∀ w ∈ buildSpeakerWindows segStart segEnd turns, ∀ speaker ∈ w.speaker,
      ∃ turn ∈ turns, turn.speaker = speaker ∧ turn.start ≤ w.start ∧ w.end ≤ turn.end := by
  intro h
  have hwindow := h 0 10 [⟨"SPEAKER_00", 0, 5, none, none⟩, ⟨"SPEAKER_00", 5, 10, none, none⟩]
  revert hwindow
  decide +kernel

end Windows

end Dalston.Transcripts
