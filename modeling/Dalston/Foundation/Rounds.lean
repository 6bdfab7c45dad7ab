import Mathlib

/-!
# Loops with a bound on their rounds

A loop that may not end is a function of the number of rounds it may take, which gives no
result if they run out. It returns a result if it gives it for every large enough number.
-/

namespace Dalston.Foundation

variable {A B : Type} {loop loop' : Nat → Option A} {a a' : A}

/-- The loop returns a result once it may take enough rounds. -/
def Returns (loop : Nat → Option A) (a : A) : Prop :=
  ∃ bound, ∀ rounds, bound ≤ rounds → loop rounds = some a

theorem Returns.unique (h : Returns loop a) (h' : Returns loop a') : a = a' := by
  obtain ⟨bound, hloop⟩ := h
  obtain ⟨bound', hloop'⟩ := h'
  have heq := hloop (max bound bound') (le_max_left _ _)
  rw [hloop' (max bound bound') (le_max_right _ _)] at heq
  exact (Option.some.inj heq).symm

/-- What does not depend on the rounds is returned at once. -/
theorem returns_const (a : A) : Returns (fun _ => some a) a := ⟨0, fun _ _ => rfl⟩

/-- One more round does not change what is returned. -/
theorem returns_succ : Returns (fun rounds => loop (rounds + 1)) a ↔ Returns loop a := by
  constructor
  · rintro ⟨bound, h⟩
    refine ⟨bound + 1, fun rounds hrounds => ?_⟩
    obtain ⟨rounds, rfl⟩ := Nat.exists_eq_add_of_le' hrounds
    exact h (rounds + bound) (Nat.le_add_left _ _)
  · rintro ⟨bound, h⟩
    exact ⟨bound, fun rounds hrounds => h (rounds + 1) (Nat.le_succ_of_le hrounds)⟩

theorem Returns.congr (h : Returns loop a) (heq : ∀ rounds, loop' rounds = loop rounds) :
    Returns loop' a := by
  obtain ⟨bound, hloop⟩ := h
  exact ⟨bound, fun rounds hrounds => (heq rounds).trans (hloop rounds hrounds)⟩

theorem Returns.map (h : Returns loop a) (f : A → B) :
    Returns (fun rounds => (loop rounds).map f) (f a) := by
  obtain ⟨bound, hloop⟩ := h
  exact ⟨bound, fun rounds hrounds => by simp [hloop rounds hrounds]⟩

/-- What follows a result may take as many rounds. -/
theorem Returns.bind (h : Returns loop a) (next : A → Nat → Option B) {b : B}
    (hnext : Returns (next a) b) :
    Returns (fun rounds => (loop rounds).bind fun a => next a rounds) b := by
  obtain ⟨bound, hloop⟩ := h
  obtain ⟨bound', hnext⟩ := hnext
  refine ⟨max bound bound', fun rounds hrounds => ?_⟩
  dsimp only
  rw [hloop rounds ((le_max_left _ _).trans hrounds), Option.bind_some,
    hnext rounds ((le_max_right _ _).trans hrounds)]

/-- The loops for the items of a list may take as many rounds as the longest of them. -/
theorem returns_mapM {loops : A → Nat → Option B} {results : A → B} {items : List A}
    (h : ∀ x ∈ items, Returns (loops x) (results x)) :
    Returns (fun rounds => items.mapM fun x => loops x rounds) (items.map results) := by
  induction items with
  | nil => exact returns_const []
  | cons x rest ih =>
      have hrest := ih fun z hz => h z (List.mem_cons_of_mem _ hz)
      have hboth := (h x List.mem_cons_self).bind
        (fun y rounds => (rest.mapM fun x => loops x rounds).map (y :: ·))
        (hrest.map (results x :: ·))
      refine hboth.congr fun rounds => ?_
      rw [List.mapM_cons]
      cases loops x rounds with
      | none => rfl
      | some y =>
          cases rest.mapM fun x => loops x rounds with
          | none => rfl
          | some ys => rfl

/-- A loop that never gives a result does not return. -/
theorem not_returns_of_none (h : ∀ rounds, loop rounds = none) : ¬ Returns loop a := by
  rintro ⟨bound, hloop⟩
  have heq := hloop bound le_rfl
  rw [h] at heq
  cases heq

end Dalston.Foundation
