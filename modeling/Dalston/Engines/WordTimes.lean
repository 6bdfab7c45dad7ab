import Dalston.Engines.PiiDetection

/-!
# The times of a span of the text

The detector counts characters along the words of the segments, with one space after each word,
and gives every offset the times of its word. A span of the text begins with the word of its
first known offset and ends with the word of its last one.
-/

namespace Dalston.Engines.PiiDetection

open Model.TextWrap

section Offsets

/-- The words of a segment. A segment without words counts as one. -/
def segmentPieces (seg : Segment) : List Word :=
  match seg.words with
  | some (w :: ws) => w :: ws
  | _ => [⟨seg.text, seg.start, seg.stop⟩]

def pieces (segments : List Segment) : List Word := segments.flatMap segmentPieces

/-- Words that follow each other with one space in between, and where each one begins. -/
def spaced : Nat → List Word → List (Nat × Word)
  | _, [] => []
  | offset, w :: ws => (offset, w) :: spaced (offset + (w.text.length + 1)) ws

def endOf (p : Nat × Word) : Nat := p.1 + p.2.text.length

def timesOf (p : Nat × Word) : WordTimes := charTimes p.1 p.2.text (p.2.start, p.2.stop)

theorem addSegment_eq (s : Nat × WordTimes) (seg : Segment) :
    addSegment s seg =
      (segmentPieces seg).foldl (fun s w => addTimed s w.text (w.start, w.stop)) s := by
  rw [addSegment, segmentPieces]
  cases seg.words with
  | none => rfl
  | some ws => cases ws <;> rfl

theorem foldl_addTimed (s : Nat × WordTimes) (ws : List Word) :
    (ws.foldl (fun s w => addTimed s w.text (w.start, w.stop)) s).2 =
      s.2 ++ (spaced s.1 ws).flatMap timesOf := by
  induction ws generalizing s with
  | nil => simp [spaced]
  | cons w ws ih =>
      rw [List.foldl_cons, ih, spaced, List.flatMap_cons, ← List.append_assoc]
      rfl

/-- The map is the one of the words in a row. -/
theorem buildWordTimeMap_eq (segments : List Segment) :
    buildWordTimeMap segments = (spaced 0 (pieces segments)).flatMap timesOf := by
  have hpass : ∀ s, segments.foldl addSegment s =
      (pieces segments).foldl (fun s w => addTimed s w.text (w.start, w.stop)) s := by
    intro s
    rw [pieces, List.foldl_flatMap]
    congr 1
    funext s seg
    exact addSegment_eq s seg
  rw [buildWordTimeMap, hpass, foldl_addTimed, List.nil_append]

theorem le_of_mem_spaced {offset : Nat} {ws : List Word} {p : Nat × Word}
    (h : p ∈ spaced offset ws) : offset ≤ p.1 := by
  induction ws generalizing offset with
  | nil => cases h
  | cons w ws ih =>
      rcases List.mem_cons.mp h with rfl | h
      · exact le_rfl
      · have := ih h
        omega

theorem spaced_apart (offset : Nat) (ws : List Word) :
    (spaced offset ws).Pairwise fun p q => endOf p < q.1 := by
  induction ws generalizing offset with
  | nil => exact List.Pairwise.nil
  | cons w ws ih =>
      refine List.pairwise_cons.mpr ⟨fun q hq => ?_, ih _⟩
      have := le_of_mem_spaced hq
      simp only [endOf]
      omega

/-- Words that stand apart and behind the offset end further on than words in a row. -/
theorem exists_beyond {placed : List (Nat × Word)}
    (hapart : placed.Pairwise fun p q => endOf p < q.1) (hne : placed ≠ []) {offset : Nat}
    (hoffset : ∀ p ∈ placed, offset < p.1) :
    ∃ p ∈ placed, ∀ s ∈ spaced offset (placed.map Prod.snd), endOf s < endOf p := by
  induction placed generalizing offset with
  | nil => exact absurd rfl hne
  | cons first rest ih =>
      obtain ⟨hnext, hrest⟩ := List.pairwise_cons.mp hapart
      have hfirst := hoffset first List.mem_cons_self
      cases rest with
      | nil =>
          refine ⟨first, List.mem_cons_self, fun s hs => ?_⟩
          obtain rfl := List.mem_singleton.mp hs
          simp only [endOf]
          omega
      | cons second rest =>
          have hbehind : ∀ p ∈ second :: rest, offset + (first.2.text.length + 1) < p.1 := by
            intro p hp
            have := hnext p hp
            rw [endOf] at this
            omega
          obtain ⟨p, hp, hbeyond⟩ := ih hrest (by simp) hbehind
          refine ⟨p, List.mem_cons_of_mem _ hp, fun s hs => ?_⟩
          rcases List.mem_cons.mp hs with rfl | hs
          · have := hnext p hp
            simp only [endOf] at this ⊢
            omega
          · exact hbeyond s hs

/-- Words that stand apart are in a row, or the last of them ends behind that row. -/
theorem eq_spaced_or_beyond {placed : List (Nat × Word)}
    (hapart : placed.Pairwise fun p q => endOf p < q.1) {offset : Nat}
    (hoffset : ∀ p ∈ placed, offset ≤ p.1) :
    placed = spaced offset (placed.map Prod.snd) ∨
      ∃ p ∈ placed, ∀ s ∈ spaced offset (placed.map Prod.snd), endOf s < endOf p := by
  induction placed generalizing offset with
  | nil => exact Or.inl rfl
  | cons first rest ih =>
      obtain ⟨hnext, hrest⟩ := List.pairwise_cons.mp hapart
      rcases (hoffset first List.mem_cons_self).lt_or_eq with hlt | rfl
      · refine Or.inr (exists_beyond hapart (by simp) fun p hp => ?_)
        rcases List.mem_cons.mp hp with rfl | hp
        · exact hlt
        · have := hnext p hp
          rw [endOf] at this
          omega
      · have hbehind : ∀ p ∈ rest, first.1 + (first.2.text.length + 1) ≤ p.1 := hnext
        rcases ih hrest hbehind with heq | ⟨p, hp, hbeyond⟩
        · exact Or.inl (congrArg (first :: ·) heq)
        · refine Or.inr ⟨p, List.mem_cons_of_mem _ hp, fun s hs => ?_⟩
          rcases List.mem_cons.mp hs with rfl | hs
          · have := hnext p hp
            simp only [endOf] at this ⊢
            omega
          · exact hbeyond s hs

end Offsets

section Lookup

/-- Two different elements of a list stand in its relation one way or the other. -/
theorem eq_or_rel_of_pairwise {A : Type} {R : A → A → Prop} {l : List A} (h : l.Pairwise R)
    {x y : A} (hx : x ∈ l) (hy : y ∈ l) : x = y ∨ R x y ∨ R y x := by
  by_cases heq : x = y
  · exact Or.inl heq
  · have hsymm : Std.Symm fun x y => R x y ∨ R y x := ⟨fun _ _ => Or.symm⟩
    have hboth : l.Pairwise fun x y => R x y ∨ R y x := h.imp Or.inl
    exact Or.inr (hboth.forall hx hy heq)

variable {placed : List (Nat × Word)} {q : Nat} {t : Rat × Rat}

theorem mem_flatMap_timesOf : (q, t) ∈ placed.flatMap timesOf ↔
    ∃ p ∈ placed, p.1 ≤ q ∧ q < endOf p ∧ t = (p.2.start, p.2.stop) := by
  simp only [List.mem_flatMap, timesOf, charTimes, List.mem_map, List.mem_range, Prod.mk.injEq,
    endOf]
  refine exists_congr fun p => and_congr_right fun _ => ⟨?_, ?_⟩
  · rintro ⟨i, hi, rfl, rfl⟩
    exact ⟨by omega, by omega, rfl⟩
  · rintro ⟨hle, hlt, rfl⟩
    exact ⟨q - p.1, by omega, by omega, rfl⟩

theorem flatMap_timesOf_increasing (hapart : placed.Pairwise fun p q => endOf p < q.1) :
    (placed.flatMap timesOf).Pairwise fun e e' => e.1 < e'.1 := by
  refine List.pairwise_flatMap.mpr ⟨fun p _ => ?_, hapart.imp fun {p p'} hlt e he e' he' => ?_⟩
  · refine List.pairwise_map.mpr (List.pairwise_lt_range.imp fun hlt => ?_)
    exact Nat.add_lt_add_left hlt _
  · obtain ⟨i, hi, rfl⟩ := List.mem_map.mp he
    obtain ⟨j, -, rfl⟩ := List.mem_map.mp he'
    have := List.mem_range.mp hi
    simp only [endOf] at hlt ⊢
    omega

/-- With increasing offsets every entry is found. -/
theorem lookup_eq_some_iff_mem {times : WordTimes}
    (h : times.Pairwise fun e e' => e.1 < e'.1) :
    List.lookup q times = some t ↔ (q, t) ∈ times := by
  induction times with
  | nil => simp
  | cons e times ih =>
      obtain ⟨hnext, hrest⟩ := List.pairwise_cons.mp h
      obtain ⟨k, u⟩ := e
      rw [List.lookup_cons, List.mem_cons, ← ih hrest]
      by_cases hk : q = k
      · subst hk
        have hnone : List.lookup q times ≠ some t := fun hsome =>
          (hnext _ ((ih hrest).mp hsome)).false
        simp [hnone, eq_comm]
      · have hne : (q == k) = false := by simpa using hk
        simp [hne, hk]

theorem lookup_eq_some_iff (hapart : placed.Pairwise fun p q => endOf p < q.1) :
    List.lookup q (placed.flatMap timesOf) = some t ↔
      ∃ p ∈ placed, p.1 ≤ q ∧ q < endOf p ∧ t = (p.2.start, p.2.stop) := by
  rw [lookup_eq_some_iff_mem (flatMap_timesOf_increasing hapart), mem_flatMap_timesOf]

end Lookup

section Timing

variable {times : WordTimes} {a b q : Nat} {t : Rat × Rat}

theorem findEntityTiming_unknown (h : ∀ q, a ≤ q → q < b → List.lookup q times = none) :
    findEntityTiming a b times = (0, 0) := by
  have hnone : (List.range' a (b - a)).filterMap (List.lookup · times) = [] := by
    refine List.filterMap_eq_nil_iff.mpr fun q hq => ?_
    obtain ⟨hle, hlt⟩ := List.mem_range'_1.mp hq
    exact h q hle (by omega)
  simp only [findEntityTiming, hnone]
  rfl

theorem findEntityTiming_first (hab : a < b) (h : List.lookup a times = some t) :
    (findEntityTiming a b times).1 = t.1 := by
  have hrange : List.range' a (b - a) = a :: List.range' (a + 1) (b - (a + 1)) := by
    rw [← List.range'_succ]
    congr 1
    omega
  simp [findEntityTiming, hrange, h]

theorem findEntityTiming_last (hab : a < b) (h : List.lookup (b - 1) times = some t) :
    (findEntityTiming a b times).2 = t.2 := by
  have hrange : List.range' a (b - a) = List.range' a (b - 1 - a) ++ [b - 1] := by
    have hlast := @List.range'_1_concat a (b - 1 - a)
    rwa [show b - 1 - a + 1 = b - a by omega, show a + (b - 1 - a) = b - 1 by omega] at hlast
  simp [findEntityTiming, hrange, h]

/-- Where later offsets have later times, the times of a span reach around those of its
offsets. -/
theorem findEntityTiming_reaches
    (hmono : ∀ q q' t t', q < q' → List.lookup q times = some t → List.lookup q' times = some t' →
      t.1 ≤ t'.1 ∧ t.2 ≤ t'.2) (ha : a ≤ q) (hb : q < b) (h : List.lookup q times = some t) :
    (findEntityTiming a b times).1 ≤ t.1 ∧ t.2 ≤ (findEntityTiming a b times).2 := by
  have hrows : ((List.range' a (b - a)).filterMap (List.lookup · times)).Pairwise
      fun t t' => t.1 ≤ t'.1 ∧ t.2 ≤ t'.2 := by
    refine List.pairwise_filterMap.mpr ((List.pairwise_lt_range' (s := a) (n := b - a)).imp ?_)
    intro q q' hlt t ht t' ht'
    exact hmono q q' t t' hlt ht ht'
  have hknown : t ∈ (List.range' a (b - a)).filterMap (List.lookup · times) :=
    List.mem_filterMap.mpr ⟨q, List.mem_range'_1.mpr ⟨ha, by omega⟩, h⟩
  simp only [findEntityTiming]
  generalize (List.range' a (b - a)).filterMap (List.lookup · times) = known at hrows hknown
  refine ⟨?_, ?_⟩
  · cases known with
    | nil => cases hknown
    | cons first rest =>
        rcases List.mem_cons.mp hknown with rfl | hmem
        · exact le_rfl
        · exact ((List.pairwise_cons.mp hrows).1 t hmem).1
  · rcases List.eq_nil_or_concat known with rfl | ⟨front, last, rfl⟩
    · cases hknown
    · rw [List.concat_eq_append] at hrows hknown ⊢
      rw [List.getLast?_concat]
      rcases List.mem_append.mp hknown with hmem | hmem
      · exact ((List.pairwise_append.mp hrows).2.2 t hmem last (List.mem_singleton_self _)).2
      · rw [List.mem_singleton.mp hmem]
        exact le_rfl

end Timing

section Placed

/-- The words stand in the text at their places, one after the other and apart. -/
structure Stands (text : Text) (placed : List (Nat × Word)) : Prop where
  written : ∀ p ∈ placed, p.2.text ≠ [] ∧ p.2.text <+: text.drop p.1
  apart : placed.Pairwise fun p q => endOf p < q.1

/-- Neither the starts nor the ends of the words go back. -/
def InOrder (ws : List Word) : Prop :=
  ws.Pairwise fun w w' => w.start ≤ w'.start ∧ w.stop ≤ w'.stop

/-- A character of the word lies in the span. -/
def Touches (p : Nat × Word) (a b : Nat) : Prop := p.1 < b ∧ a < endOf p

variable {text : Text} {placed : List (Nat × Word)} {p p' : Nat × Word} {a b : Nat}

theorem Stands.lt_endOf (h : Stands text placed) (hp : p ∈ placed) : p.1 < endOf p :=
  Nat.lt_add_of_pos_right (List.length_pos_iff.mpr (h.written p hp).1)

theorem Stands.endOf_le (h : Stands text placed) (hp : p ∈ placed) :
    endOf p ≤ text.length := by
  have hlen := (h.written p hp).2.length_le
  have hlt := h.lt_endOf hp
  rw [List.length_drop] at hlen
  simp only [endOf] at hlt ⊢
  omega

theorem Stands.lookup (h : Stands text placed) (hp : p ∈ placed) {q : Nat} (hle : p.1 ≤ q)
    (hlt : q < endOf p) :
    List.lookup q (placed.flatMap timesOf) = some (p.2.start, p.2.stop) :=
  (lookup_eq_some_iff h.apart).mpr ⟨p, hp, hle, hlt, rfl⟩

/-- The times of a span reach around the words that it touches. -/
theorem Stands.touches_timing (h : Stands text placed) (horder : InOrder (placed.map Prod.snd))
    (hp : p ∈ placed) (htouch : Touches p a b) (hab : a < b) :
    (findEntityTiming a b (placed.flatMap timesOf)).1 ≤ p.2.start ∧
      p.2.stop ≤ (findEntityTiming a b (placed.flatMap timesOf)).2 := by
  have hlt := h.lt_endOf hp
  have htimes : placed.Pairwise fun p q =>
      endOf p < q.1 ∧ p.2.start ≤ q.2.start ∧ p.2.stop ≤ q.2.stop :=
    h.apart.and (List.pairwise_map.mp horder)
  have hfound := h.lookup hp (le_max_left p.1 a) (max_lt hlt htouch.2)
  refine findEntityTiming_reaches ?_ (le_max_right p.1 a) (max_lt htouch.1 hab) hfound
  intro q q' t t' hqq' ht ht'
  obtain ⟨r, hr, hle, hlt, rfl⟩ := (lookup_eq_some_iff h.apart).mp ht
  obtain ⟨r', hr', hle', hlt', rfl⟩ := (lookup_eq_some_iff h.apart).mp ht'
  rcases eq_or_rel_of_pairwise htimes hr hr' with rfl | hrel | hrel
  · exact ⟨le_rfl, le_rfl⟩
  · exact hrel.2
  · -- the word of the later offset would end before the earlier offset
    have hback := hrel.1
    omega

/-- A span from one word to another has the start of the one and the end of the other. -/
theorem Stands.timing (h : Stands text placed) (hp : p ∈ placed) (hp' : p' ∈ placed)
    (hle : p.1 ≤ p'.1) :
    findEntityTiming p.1 (endOf p') (placed.flatMap timesOf) = (p.2.start, p'.2.stop) := by
  have hlt := h.lt_endOf hp
  have hlt' := h.lt_endOf hp'
  have hspan : p.1 < endOf p' := by omega
  have hlast : endOf p' - 1 < endOf p' := by omega
  have hfirst := findEntityTiming_first hspan (h.lookup hp le_rfl hlt)
  have hstop := findEntityTiming_last hspan (h.lookup hp' (by omega) hlast)
  exact Prod.ext hfirst hstop

end Placed

end Dalston.Engines.PiiDetection
