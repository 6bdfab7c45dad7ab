import Mathlib

/-!
# Lists of results

A computation over a list gives a result for each item or stops at the first error. It ends
well exactly if each item does, and the results stand in the order of the items.
-/

namespace Dalston.Foundation

variable {A B E : Type} {f : A → Except E B} {R : A → B → Prop}

/-- All calls succeed with the results of a function exactly if each of them does. -/
theorem mapM_eq_ok_map {g : A → B} (xs : List A) :
    xs.mapM f = .ok (xs.map g) ↔ ∀ x ∈ xs, f x = .ok (g x) := by
  induction xs with
  | nil => simp [pure, Except.pure]
  | cons x rest ih =>
      rw [List.mapM_cons, List.forall_mem_cons, ← ih]
      cases hx : f x with
      | error e => simp [bind, Except.bind]
      | ok y =>
          cases hrest : rest.mapM f with
          | error e => simp [bind, Except.bind]
          | ok ys => simp [bind, Except.bind, pure, Except.pure]

/-- The results are all there, each as it should be, exactly if there is one for each item. -/
theorem exists_mapM_iff {xs : List A} :
    (∃ ys, xs.mapM f = .ok ys ∧ List.Forall₂ R xs ys) ↔ ∀ x ∈ xs, ∃ y, f x = .ok y ∧ R x y := by
  induction xs with
  | nil => exact iff_of_true ⟨[], rfl, .nil⟩ (by simp)
  | cons x xs ih =>
      rw [List.forall_mem_cons, ← ih, List.mapM_cons]
      cases hy : f x with
      | error e => simp [bind, Except.bind]
      | ok y =>
          cases hys : xs.mapM f with
          | error e => simp [bind, Except.bind]
          | ok ys => simp [bind, Except.bind, pure, Except.pure]

section Related

variable {xs : List A} {ys : List B}

/-- A result has its item. -/
theorem exists_of_mem_forall₂ (h : List.Forall₂ R xs ys) {y : B} (hy : y ∈ ys) :
    ∃ x ∈ xs, R x y := by
  induction h with
  | nil => cases hy
  | cons hfirst hrest ih =>
      rcases List.mem_cons.mp hy with rfl | hy
      · exact ⟨_, List.mem_cons_self, hfirst⟩
      · obtain ⟨x, hx, hxy⟩ := ih hy
        exact ⟨x, List.mem_cons_of_mem _ hx, hxy⟩

/-- What holds of the items in order holds of their results. -/
theorem pairwise_of_forall₂ {P : A → A → Prop} {Q : B → B → Prop} (h : List.Forall₂ R xs ys)
    (hxs : xs.Pairwise P)
    (hstep : ∀ x y x' y', R x y → R x' y' → P x x' → Q y y') : ys.Pairwise Q := by
  induction h with
  | nil => exact List.Pairwise.nil
  | cons hfirst hrest ih =>
      obtain ⟨hhead, htail⟩ := List.pairwise_cons.mp hxs
      refine List.pairwise_cons.mpr ⟨fun y' hy' => ?_, ih htail⟩
      obtain ⟨x', hx', hxy'⟩ := exists_of_mem_forall₂ hrest hy'
      exact hstep _ _ _ _ hfirst hxy' (hhead x' hx')

end Related

end Dalston.Foundation
