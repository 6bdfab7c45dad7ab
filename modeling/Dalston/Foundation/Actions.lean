import Mathlib

/-!
# Runs of actions

A system moves by actions. A run takes any number of steps, each with an action that
a condition permits where it is taken.
-/

namespace Dalston.Foundation

variable {S A : Type}

inductive ActionRun (step : S → A → S → Prop) (ok : S → A → Prop) : S → S → Prop
  | refl (s : S) : ActionRun step ok s s
  | step {s s' s'' : S} {action : A} :
      ActionRun step ok s s' → step s' action s'' → ok s' action → ActionRun step ok s s''

namespace ActionRun

variable {step : S → A → S → Prop} {ok ok' : S → A → Prop} {s s' s'' : S}

theorem single {action : A} (h : step s action s') (hok : ok s action) :
    ActionRun step ok s s' :=
  .step (.refl s) h hok

theorem trans (h : ActionRun step ok s s') (h' : ActionRun step ok s' s'') :
    ActionRun step ok s s'' := by
  induction h' with
  | refl => exact h
  | step _ hstep hok ih => exact .step ih hstep hok

/-- The invariant rule: what every permitted step keeps holds at the end of every run. -/
theorem invariant {I : S → Prop} (h : ActionRun step ok s s') (hI : I s)
    (keep : ∀ s action s', I s → step s action s' → ok s action → I s') : I s' := by
  induction h with
  | refl => exact hI
  | step _ hstep hok ih => exact keep _ _ _ ih hstep hok

end ActionRun

section Functions

variable {next : S → A → S} {ok : S → A → Prop}

/-- The steps of a system whose actions are functions. -/
def Acts (next : S → A → S) (s : S) (action : A) (s' : S) : Prop := s' = next s action

/-- Every action is permitted where it is taken. -/
def AllPermitted (next : S → A → S) (ok : S → A → Prop) : S → List A → Prop
  | _, [] => True
  | s, action :: actions => ok s action ∧ AllPermitted next ok (next s action) actions

instance (next : S → A → S) (ok : S → A → Prop) [∀ s action, Decidable (ok s action)] :
    ∀ s actions, Decidable (AllPermitted next ok s actions)
  | _, [] => isTrue trivial
  | s, action :: actions =>
      have := instDecidableAllPermitted next ok (next s action) actions
      inferInstanceAs (Decidable (ok s action ∧ AllPermitted next ok (next s action) actions))

theorem ActionRun.of_permitted {s : S} {actions : List A} (h : AllPermitted next ok s actions) :
    ActionRun (Acts next) ok s (actions.foldl next s) := by
  induction actions generalizing s with
  | nil => exact .refl s
  | cons action actions ih => exact (ActionRun.single rfl h.1).trans (ih h.2)

end Functions

end Dalston.Foundation
