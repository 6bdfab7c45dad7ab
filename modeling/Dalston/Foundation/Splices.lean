import Mathlib

/-!
# Splices in a text

A splice replaces one span of a list by a filler. Spans that stand beside each other are
spliced from the last to the first, so that the offsets of the earlier ones stay right.
Marking every element with its origin shows what is left of the text.
-/

namespace Dalston.Foundation

variable {A E : Type} (start stop : E → Nat)

/-- The span of `e` gives way to its filler. -/
def splice (filler : E → List A) (text : List A) (e : E) : List A :=
  text.take (start e) ++ filler e ++ text.drop (stop e)

/-- Splices from the last span to the first. -/
def spliceAll (filler : E → List A) (text : List A) (es : List E) : List A :=
  es.foldr (fun e t => splice start stop filler t e) text

/-- Each span ends before the next one starts. -/
def Beside (es : List E) : Prop := es.Pairwise fun a b => stop a ≤ start b

/-- The position lies in none of the spans. -/
def Free (es : List E) (p : Nat) : Prop := ∀ e ∈ es, ¬ (start e ≤ p ∧ p < stop e)

instance (es : List E) : DecidablePred (Free start stop es) := fun p =>
  inferInstanceAs (Decidable (∀ e ∈ es, ¬ (start e ≤ p ∧ p < stop e)))

/-- Each element with the position it comes from. -/
def marked (text : List A) : List (A × Option Nat) := text.zipIdx.map fun p => (p.1, some p.2)

/-- Elements that come from no position. -/
def unmarked (t : List A) : List (A × Option Nat) := t.map (·, none)

theorem map_fst_marked (text : List A) : (marked text).map Prod.fst = text := by
  simp [marked, Function.comp_def]

theorem filterMap_unmarked (t : List A) : (unmarked t).filterMap Prod.snd = [] := by
  simp [unmarked, List.filterMap_map]

theorem filterMap_marked (text : List A) :
    (marked text).filterMap Prod.snd = List.range text.length := by
  rw [marked, List.filterMap_map]
  calc text.zipIdx.filterMap (some ∘ Prod.snd)
      = text.zipIdx.map Prod.snd := by rw [List.filterMap_eq_map]
    _ = List.range text.length := by rw [List.zipIdx_map_snd, List.range_eq_range']

/-- A splice does not look at the elements. -/
theorem map_splice {B : Type} (f : A → B) (filler : E → List A) (text : List A) (e : E) :
    (splice start stop filler text e).map f =
      splice start stop (fun e => (filler e).map f) (text.map f) e := by
  simp [splice, List.map_take, List.map_drop]

theorem map_spliceAll {B : Type} (f : A → B) (filler : E → List A) (text : List A)
    (es : List E) :
    (spliceAll start stop filler text es).map f =
      spliceAll start stop (fun e => (filler e).map f) (text.map f) es := by
  induction es with
  | nil => rfl
  | cons e es ih =>
      simp only [spliceAll, List.foldr_cons] at ih ⊢
      rw [map_splice, ih]

section Origins

variable {start stop}

/-- Behind a position that every span starts after, nothing has changed. -/
theorem take_spliceAll {filler : E → List A} {text : List A} {es : List E} {p : Nat}
    (hp : ∀ e ∈ es, p ≤ start e) (htext : p ≤ text.length) :
    (spliceAll start stop filler text es).take p = text.take p := by
  induction es with
  | nil => rfl
  | cons e es ih =>
      have hrest := ih fun b hb => hp b (List.mem_cons_of_mem _ hb)
      have he := hp e List.mem_cons_self
      set t := spliceAll start stop filler text es with ht
      have hlong : p ≤ t.length := by
        have hlen := congrArg List.length hrest
        simp only [List.length_take] at hlen
        omega
      calc (spliceAll start stop filler text (e :: es)).take p
          = (t.take (start e) ++ (filler e ++ t.drop (stop e))).take p := by
            rw [← List.append_assoc]
            rfl
        _ = (t.take (start e)).take p :=
            List.take_append_of_le_length (by rw [List.length_take]; omega)
        _ = t.take p := by rw [List.take_take, min_eq_left he]
        _ = text.take p := hrest

theorem length_le_spliceAll {filler : E → List A} {text : List A} {es : List E} {p : Nat}
    (hp : ∀ e ∈ es, p ≤ start e) (htext : p ≤ text.length) :
    p ≤ (spliceAll start stop filler text es).length := by
  have hkept : (spliceAll start stop filler text es).take p = text.take p :=
    take_spliceAll hp htext
  have hlen := congrArg List.length hkept
  simp only [List.length_take] at hlen
  omega

/-- The positions of a stretch of the text. -/
theorem filterMap_stretch (text : List A) {a b : Nat} (hb : b ≤ text.length) :
    (((marked text).take b).drop a).filterMap Prod.snd = List.range' a (b - a) := by
  have hsome : ∀ t : List (A × Option Nat), (∀ x ∈ t, x.2.isSome) →
      t.filterMap Prod.snd = t.map fun x => x.2.getD 0 := by
    intro t ht
    rw [← List.filterMap_eq_map]
    refine List.filterMap_congr fun x hx => ?_
    obtain ⟨i, hi⟩ := Option.isSome_iff_exists.mp (ht x hx)
    simp [hi]
  have hmarked : ∀ x ∈ ((marked text).take b).drop a, x.2.isSome := by
    intro x hx
    obtain ⟨q, -, rfl⟩ := List.mem_map.mp (List.mem_of_mem_take (List.mem_of_mem_drop hx))
    rfl
  rw [hsome _ hmarked, List.map_drop, List.map_take]
  have hall : (marked text).map (fun x => x.2.getD 0) = List.range text.length := by
    rw [← filterMap_marked, hsome]
    intro x hx
    obtain ⟨q, -, rfl⟩ := List.mem_map.mp hx
    rfl
  rw [hall, List.take_range, min_eq_left hb, List.range_eq_range', List.drop_range']
  simp

theorem range'_cut {a b c : Nat} (hab : a ≤ b) (hbc : b ≤ c) :
    List.range' a (c - a) = List.range' a (b - a) ++ List.range' b (c - b) := by
  have happend := List.range'_append_1 (s := a) (m := b - a) (n := c - b)
  rw [Nat.add_sub_cancel' hab] at happend
  rw [happend]
  congr 1
  omega

/-- From a position that every span starts after, the free positions are left, in order. -/
theorem origins_drop_spliceAll {filler : E → List A} {text : List A} {es : List E} {p : Nat}
    (hbeside : Beside start stop es) (hproper : ∀ e ∈ es, start e ≤ stop e)
    (hin : ∀ e ∈ es, stop e ≤ text.length) (hp : ∀ e ∈ es, p ≤ start e)
    (htext : p ≤ text.length) :
    ((spliceAll start stop (fun e => unmarked (filler e)) (marked text) es).drop p).filterMap
        Prod.snd =
      (List.range' p (text.length - p)).filter fun q => decide (Free start stop es q) := by
  have hlen : (marked text).length = text.length := by simp [marked]
  induction es generalizing p with
  | nil =>
      have hfree : ∀ q ∈ List.range' p (text.length - p),
          decide (Free start stop ([] : List E) q) = true := by simp [Free]
      have hstretch := filterMap_stretch (a := p) text le_rfl
      rw [List.take_of_length_le hlen.le] at hstretch
      rw [List.filter_eq_self.mpr hfree]
      exact hstretch
  | cons e es ih =>
      obtain ⟨hnext, hbeside⟩ := List.pairwise_cons.mp hbeside
      have he := hp e List.mem_cons_self
      have hspan := hproper e List.mem_cons_self
      have hstop := hin e List.mem_cons_self
      have hrest := ih hbeside (fun b hb => hproper b (List.mem_cons_of_mem _ hb))
        (fun b hb => hin b (List.mem_cons_of_mem _ hb)) hnext hstop
      set t := spliceAll start stop (fun e => unmarked (filler e)) (marked text) es with ht
      have hfront : t.take (start e) = (marked text).take (start e) :=
        take_spliceAll (fun b hb => hspan.trans (hnext b hb)) (by omega)
      have hlong : start e ≤ t.length :=
        length_le_spliceAll (fun b hb => hspan.trans (hnext b hb)) (by omega)
      have hcut : (spliceAll start stop (fun e => unmarked (filler e)) (marked text)
          (e :: es)).drop p =
          ((marked text).take (start e)).drop p ++ (unmarked (filler e) ++ t.drop (stop e)) := by
        calc (t.take (start e) ++ unmarked (filler e) ++ t.drop (stop e)).drop p
            = (t.take (start e)).drop p ++ (unmarked (filler e) ++ t.drop (stop e)) := by
              rw [List.append_assoc, List.drop_append_of_le_length]
              rw [List.length_take]
              omega
          _ = _ := by rw [hfront]
      have hranges : List.range' p (text.length - p) =
          List.range' p (start e - p) ++ (List.range' (start e) (stop e - start e) ++
            List.range' (stop e) (text.length - stop e)) := by
        rw [range'_cut he (by omega : start e ≤ text.length), range'_cut hspan hstop]
      -- in front of the span, inside it and behind it
      have hbefore : ∀ q ∈ List.range' p (start e - p),
          decide (Free start stop (e :: es) q) = true := by
        intro q hq
        have hq := (List.mem_range'_1.mp hq).2
        refine decide_eq_true fun b hb hcovered => ?_
        rcases List.mem_cons.mp hb with rfl | hb
        · omega
        · have := hnext b hb
          omega
      have hinside : ∀ q ∈ List.range' (start e) (stop e - start e),
          ¬ decide (Free start stop (e :: es) q) = true := by
        intro q hq hfree
        have hq := List.mem_range'_1.mp hq
        exact of_decide_eq_true hfree e List.mem_cons_self (by omega)
      have hbehind : ∀ q ∈ List.range' (stop e) (text.length - stop e),
          decide (Free start stop (e :: es) q) = decide (Free start stop es q) := by
        intro q hq
        have hq := (List.mem_range'_1.mp hq).1
        have hpast : ¬ (start e ≤ q ∧ q < stop e) := by omega
        exact decide_eq_decide.mpr (by simp only [Free, List.forall_mem_cons, hpast,
          not_false_eq_true, true_and])
      rw [hcut, hranges, List.filterMap_append, List.filterMap_append, filterMap_unmarked,
        filterMap_stretch text (by omega), hrest, List.filter_append, List.filter_append,
        List.filter_eq_self.mpr hbefore, List.filter_eq_nil_iff.mpr hinside,
        List.filter_congr hbehind]

/-- What is left of a text is its free positions, in order. -/
theorem origins_spliceAll {filler : E → List A} {text : List A} {es : List E}
    (hbeside : Beside start stop es) (hproper : ∀ e ∈ es, start e ≤ stop e)
    (hin : ∀ e ∈ es, stop e ≤ text.length) :
    (spliceAll start stop (fun e => unmarked (filler e)) (marked text) es).filterMap Prod.snd =
      (List.range text.length).filter fun q => decide (Free start stop es q) := by
  have hwhole := @origins_drop_spliceAll A E start stop filler text es 0 hbeside hproper hin
    (fun _ _ => Nat.zero_le _) (Nat.zero_le _)
  rwa [List.drop_zero, Nat.sub_zero, ← List.range_eq_range'] at hwhole

end Origins

end Dalston.Foundation
