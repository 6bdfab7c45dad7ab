import Mathlib

/-!
# Counting below a bound

How many numbers below a bound satisfy a test, and how the count changes when
the test changes at one number or the bound grows.
-/

namespace Dalston.Foundation

/-- The numbers below `n` that satisfy `p`. -/
def countBelow (n : Nat) (p : Nat → Bool) : Nat := (List.range n).countP p

variable {n : Nat} {p q : Nat → Bool}

theorem countBelow_congr (h : ∀ x < n, p x = q x) : countBelow n p = countBelow n q := by
  apply List.countP_congr
  intro x hx
  rw [h x (List.mem_range.mp hx)]

theorem countBelow_succ : countBelow (n + 1) p = countBelow n p + (p n).toNat := by
  cases h : p n <;> simp [countBelow, List.range_succ, h]

/-- Two tests that agree except at one number count the same apart from it. -/
theorem countBelow_update {x : Nat} (hx : x < n) (h : ∀ y < n, y ≠ x → p y = q y) :
    countBelow n q + (p x).toNat = countBelow n p + (q x).toNat := by
  induction n with
  | zero => omega
  | succ n ih =>
      simp only [countBelow_succ]
      rcases Nat.lt_succ_iff_lt_or_eq.mp hx with hlt | rfl
      · have hrest := ih hlt fun y hy hne => h y (Nat.lt_succ_of_lt hy) hne
        have hn := h n (Nat.lt_succ_self n) (Nat.ne_of_gt hlt)
        rw [hn]
        omega
      · have hrest : countBelow x p = countBelow x q :=
          countBelow_congr fun y hy => h y (Nat.lt_succ_of_lt hy) (Nat.ne_of_lt hy)
        omega

theorem countBelow_le (h : ∀ x < n, p x = true → q x = true) : countBelow n p ≤ countBelow n q := by
  induction n with
  | zero => exact le_rfl
  | succ n ih =>
      have hrest := ih fun x hx => h x (Nat.lt_succ_of_lt hx)
      have hn := h n (Nat.lt_succ_self n)
      simp only [countBelow_succ]
      cases hp : p n with
      | false => simp only [Bool.toNat_false]; omega
      | true => simp only [hn hp, Bool.toNat_true]; omega

/-- Every number below the bound satisfies the test or fails it. -/
theorem countBelow_not : countBelow n p + countBelow n (fun x => !p x) = n := by
  induction n with
  | zero => rfl
  | succ n ih =>
      simp only [countBelow_succ]
      cases p n <;> simp <;> omega

end Dalston.Foundation
