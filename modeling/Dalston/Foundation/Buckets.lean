import Mathlib

/-!
# Lists dealt into buckets

Each item of a list goes to the end of the bucket that its target names. The buckets hold the
items of each target in order, and in a row they hold the whole list in another order, or the
list itself if the targets never fall.
-/

namespace Dalston.Foundation

variable {A : Type} (target : A → Nat)

/-- Put each item at the end of its bucket. -/
def deal (n : Nat) (items : List A) : List (List A) :=
  items.foldl (fun buckets a => buckets.modify (target a) (· ++ [a])) (List.replicate n [])

/-- The items of a target. -/
def bucket (items : List A) (i : Nat) : List A := items.filter fun a => target a = i

variable {target} {n : Nat} {items : List A}

@[simp] theorem bucket_nil (i : Nat) : bucket target [] i = [] := rfl

theorem foldl_modify_getElem? (buckets : List (List A)) (i : Nat) :
    (items.foldl (fun buckets a => buckets.modify (target a) (· ++ [a])) buckets)[i]? =
      buckets[i]?.map (· ++ bucket target items i) := by
  induction items generalizing buckets with
  | nil => simp
  | cons a items ih =>
      rw [List.foldl_cons, ih, List.getElem?_modify]
      by_cases h : target a = i
      · simp [h, bucket, Function.comp_def]
      · simp [h, bucket]

theorem deal_getElem? {i : Nat} (hi : i < n) :
    (deal target n items)[i]? = some (bucket target items i) := by
  simp [deal, foldl_modify_getElem?, hi]

theorem length_deal : (deal target n items).length = n := by
  have hlen : ∀ buckets : List (List A),
      (items.foldl (fun buckets a => buckets.modify (target a) (· ++ [a])) buckets).length =
        buckets.length := by
    induction items with
    | nil => exact fun _ => rfl
    | cons a items ih =>
        intro buckets
        rw [List.foldl_cons, ih, List.length_modify]
  rw [deal, hlen, List.length_replicate]

theorem deal_eq_map : deal target n items = (List.range n).map (bucket target items) := by
  refine List.ext_getElem? fun i => ?_
  rcases Nat.lt_or_ge i n with hi | hi
  · rw [deal_getElem? hi]
    simp [hi]
  · rw [List.getElem?_eq_none (by rw [length_deal]; exact hi),
      List.getElem?_eq_none (by simpa using hi)]

/-- The items with a target below a number. -/
def below (target : A → Nat) (items : List A) (m : Nat) : List A :=
  items.filter fun a => target a < m

theorem below_cons (a : A) (m : Nat) :
    below target (a :: items) m =
      if target a < m then a :: below target items m else below target items m := by
  by_cases h : target a < m <;> simp [below, h]

theorem bucket_cons (a : A) (i : Nat) :
    bucket target (a :: items) i =
      if target a = i then a :: bucket target items i else bucket target items i := by
  by_cases h : target a = i <;> simp [bucket, h]

theorem below_append_bucket_perm (m : Nat) :
    (below target items m ++ bucket target items m).Perm (below target items (m + 1)) := by
  induction items with
  | nil => exact List.Perm.nil
  | cons a items ih =>
      rw [below_cons, below_cons, bucket_cons]
      rcases Nat.lt_trichotomy (target a) m with hlt | heq | hgt
      · rw [if_pos hlt, if_neg hlt.ne, if_pos (hlt.trans m.lt_succ_self)]
        exact ih.cons a
      · rw [if_neg heq.not_lt, if_pos heq, if_pos (heq ▸ m.lt_succ_self)]
        exact List.perm_middle.trans (ih.cons a)
      · rw [if_neg hgt.not_gt, if_neg hgt.ne', if_neg (by omega)]
        exact ih

/-- Before the first item of a target there is none of a higher one. -/
theorem below_append_bucket (hordered : items.Pairwise fun a b => target a ≤ target b)
    (m : Nat) : below target items m ++ bucket target items m = below target items (m + 1) := by
  induction items with
  | nil => rfl
  | cons a items ih =>
      obtain ⟨hfirst, hrest⟩ := List.pairwise_cons.mp hordered
      rw [below_cons, below_cons, bucket_cons, ← ih hrest]
      rcases Nat.lt_trichotomy (target a) m with hlt | heq | hgt
      · rw [if_pos hlt, if_neg hlt.ne, if_pos (hlt.trans m.lt_succ_self)]
        rfl
      · have hnone : below target items m = [] := by
          rw [below, List.filter_eq_nil_iff]
          intro b hb
          have hle := hfirst b hb
          simp only [decide_eq_true_eq]
          omega
        rw [if_neg heq.not_lt, if_pos heq, if_pos (heq ▸ m.lt_succ_self), hnone]
        rfl
      · rw [if_neg hgt.not_gt, if_neg hgt.ne', if_neg (by omega)]

theorem below_eq_self (h : ∀ a ∈ items, target a < n) : below target items n = items :=
  List.filter_eq_self.mpr (by simpa using h)

/-- Nothing is lost and nothing is there twice. -/
theorem deal_flatten_perm (h : ∀ a ∈ items, target a < n) :
    (deal target n items).flatten.Perm items := by
  have hbelow : ∀ m, ((List.range m).map (bucket target items)).flatten.Perm
      (below target items m) := by
    intro m
    induction m with
    | zero => simp [below]
    | succ m ih =>
        rw [List.range_succ, List.map_append, List.flatten_append]
        simpa using (ih.append_right _).trans (below_append_bucket_perm m)
  rw [deal_eq_map]
  simpa only [below_eq_self h] using hbelow n

/-- If the targets never fall the buckets in a row are the list. -/
theorem deal_flatten_eq (h : ∀ a ∈ items, target a < n)
    (hordered : items.Pairwise fun a b => target a ≤ target b) :
    (deal target n items).flatten = items := by
  have hbelow : ∀ m, ((List.range m).map (bucket target items)).flatten =
      below target items m := by
    intro m
    induction m with
    | zero => simp [below]
    | succ m ih =>
        rw [List.range_succ, List.map_append, List.flatten_append, ih,
          ← below_append_bucket hordered m]
        simp
  rw [deal_eq_map, hbelow, below_eq_self h]

end Dalston.Foundation
