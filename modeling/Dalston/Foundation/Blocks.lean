import Mathlib

/-!
# Blocks of a list

A list falls into blocks of one length and a rest that is shorter than a block. There is only
one way to cut it so, whatever the steps in which it was cut.
-/

namespace Dalston.Foundation

variable {A : Type} {n : Nat}

/-- The full blocks of `n` elements, from the front. -/
def blocks (n : Nat) (xs : List A) : List (List A) :=
  (List.range (xs.length / n)).map fun i => (xs.drop (i * n)).take n

/-- What the full blocks leave over. -/
def leftover (n : Nat) (xs : List A) : List A := xs.drop (xs.length / n * n)

theorem blocks_of_short {xs : List A} (h : xs.length < n) : blocks n xs = [] := by
  rw [blocks, Nat.div_eq_of_lt h, List.range_zero, List.map_nil]

theorem leftover_of_short {xs : List A} (h : xs.length < n) : leftover n xs = xs := by
  rw [leftover, Nat.div_eq_of_lt h, Nat.zero_mul, List.drop_zero]

@[simp] theorem length_blocks (n : Nat) (xs : List A) : (blocks n xs).length = xs.length / n := by
  rw [blocks, List.length_map, List.length_range]

section Unique

variable {block : List A} (hblock : block.length = n) (hn : 0 < n)
include hblock hn

theorem blocks_append (xs : List A) : blocks n (block ++ xs) = block :: blocks n xs := by
  have hcount : (block ++ xs).length / n = xs.length / n + 1 := by
    rw [List.length_append, hblock, Nat.add_comm, Nat.add_div_right _ hn]
  have hdrop : ∀ i, (block ++ xs).drop ((i + 1) * n) = xs.drop (i * n) := by
    intro i
    rw [Nat.succ_mul, Nat.add_comm, ← List.drop_drop, List.drop_left' hblock]
  rw [blocks, hcount, List.range_succ_eq_map, List.map_cons, List.map_map, Nat.zero_mul,
    List.drop_zero, List.take_left' hblock]
  exact congrArg _ (List.map_congr_left fun i _ => by rw [Function.comp_apply, hdrop])

theorem leftover_append (xs : List A) : leftover n (block ++ xs) = leftover n xs := by
  rw [leftover, List.length_append, hblock, Nat.add_comm, Nat.add_div_right _ hn, Nat.succ_mul,
    Nat.add_comm, ← List.drop_drop, List.drop_left' hblock, leftover]

end Unique

/-- A cut into blocks and a short rest is the one that `blocks` makes. -/
theorem blocks_flatten_append {bs : List (List A)} {r : List A} (h : ∀ b ∈ bs, b.length = n)
    (hr : r.length < n) : blocks n (bs.flatten ++ r) = bs ∧ leftover n (bs.flatten ++ r) = r := by
  induction bs with
  | nil => exact ⟨blocks_of_short hr, leftover_of_short hr⟩
  | cons b bs ih =>
      obtain ⟨hb, hbs⟩ := List.forall_mem_cons.mp h
      obtain ⟨hblocks, hrest⟩ := ih hbs
      have hn : 0 < n := by omega
      rw [List.flatten_cons, List.append_assoc, blocks_append hb hn, leftover_append hb hn]
      exact ⟨by rw [hblocks], hrest⟩

theorem length_of_mem_blocks {xs block : List A} (h : block ∈ blocks n xs) : block.length = n := by
  obtain ⟨i, hi, rfl⟩ := List.mem_map.mp h
  have hfits : (i + 1) * n ≤ xs.length :=
    (Nat.mul_le_mul_right n (List.mem_range.mp hi)).trans (Nat.div_mul_le_self _ _)
  rw [Nat.succ_mul] at hfits
  rw [List.length_take, List.length_drop]
  omega

theorem flatten_blocks_append (n : Nat) (xs : List A) :
    (blocks n xs).flatten ++ leftover n xs = xs := by
  have hfront : ∀ q, ((List.range q).map fun i => (xs.drop (i * n)).take n).flatten =
      xs.take (q * n) := by
    intro q
    induction q with
    | zero => simp
    | succ q ih =>
        rw [List.range_succ, List.map_append, List.flatten_append, ih, Nat.succ_mul, List.take_add]
        simp
  rw [blocks, hfront, leftover, List.take_append_drop]

theorem length_leftover_lt (hn : 0 < n) (xs : List A) : (leftover n xs).length < n := by
  have hmod := Nat.mod_lt xs.length hn
  have hdiv := Nat.div_add_mod' xs.length n
  rw [leftover, List.length_drop]
  omega

/-- Whole blocks in front stay as they are. -/
theorem blocks_append_of_dvd (hn : 0 < n) {xs : List A} (hxs : n ∣ xs.length) (ys : List A) :
    blocks n (xs ++ ys) = blocks n xs ++ blocks n ys := by
  have hnone : leftover n xs = [] := by
    rw [leftover, Nat.div_mul_cancel hxs, List.drop_length]
  have hxs := flatten_blocks_append n xs
  rw [hnone, List.append_nil] at hxs
  have hcut : xs ++ ys = (blocks n xs ++ blocks n ys).flatten ++ leftover n ys := by
    rw [List.flatten_append, List.append_assoc, flatten_blocks_append, hxs]
  rw [hcut]
  refine (blocks_flatten_append ?_ (length_leftover_lt hn ys)).1
  intro b hb
  exact (List.mem_append.mp hb).elim length_of_mem_blocks length_of_mem_blocks

/-- Parts of whole blocks are cut one by one. -/
theorem blocks_flatten (hn : 0 < n) {parts : List (List A)} (h : ∀ p ∈ parts, n ∣ p.length) :
    blocks n parts.flatten = parts.flatMap (blocks n) := by
  induction parts with
  | nil => exact blocks_of_short hn
  | cons p parts ih =>
      obtain ⟨hp, hparts⟩ := List.forall_mem_cons.mp h
      rw [List.flatten_cons, blocks_append_of_dvd hn hp, ih hparts, List.flatMap_cons]

end Dalston.Foundation
