import Mathlib

/-!
# Programs of durable effects

A program is a tree whose nodes are atomic effects on a durable store. The
continuation of an effect receives the store as it was just before the effect,
so a node is at once a read and a write. A program can be run to its end, or
be cut before any of its effects; a cut leaves the store as it then is and
throws the rest of the program away.

## Implementation notes

The store after a cut is the only thing that survives, so the states at which
a program can be cut are exactly the states its effects are performed in,
together with its final state. The predicate `wp` follows the same tree and
asks for a guarantee at every performed effect and a result at the end.
-/

namespace Dalston.Foundation

/-- The meaning of an effect is one total update of the store. -/
class Interprets (E : Type) (S : outParam Type) where
  apply : E → S → S

export Interprets (apply)

/-- A tree of atomic effects; each continuation sees the store before its effect. -/
inductive Program (E S A : Type) : Type
  | done (a : A)
  | step (e : E) (next : S → Program E S A)

namespace Program

variable {E S A B C : Type}

def bind : Program E S A → (A → Program E S B) → Program E S B
  | done a, f => f a
  | step e next, f => step e fun s => (next s).bind f

instance : Monad (Program E S) where
  pure := done
  bind := bind

/-- Perform one effect and return the store it was performed in. -/
def perform (e : E) : Program E S S := step e done

@[simp] theorem pure_eq (a : A) : (pure a : Program E S A) = done a := rfl

@[simp] theorem done_bind (a : A) (f : A → Program E S B) :
    (done a >>= f : Program E S B) = f a := rfl

@[simp] theorem step_bind (e : E) (next : S → Program E S A) (f : A → Program E S B) :
    (step e next >>= f : Program E S B) = step e fun s => next s >>= f := rfl

@[simp] theorem perform_bind (e : E) (f : S → Program E S B) :
    (perform e >>= f : Program E S B) = step e f := rfl

/-- The program can come to perform the effect when its reads are answered by any stores. -/
inductive Offers : Program E S A → E → Prop
  | here (e : E) (next : S → Program E S A) : Offers (step e next) e
  | later {e e' : E} {next : S → Program E S A} (s : S) (h : Offers (next s) e') :
      Offers (step e next) e'

/-- Every effect the program can come to perform satisfies `G`. -/
def Only (G : E → Prop) (p : Program E S A) : Prop := ∀ e, p.Offers e → G e

section Offers

variable {G : E → Prop}

theorem only_done (a : A) : (done a : Program E S A).Only G := by
  intro e h
  cases h

theorem only_step {e : E} {next : S → Program E S A} (he : G e) (h : ∀ s, (next s).Only G) :
    (step e next).Only G := by
  intro e' h'
  cases h' with
  | here => exact he
  | later s h' => exact h s e' h'

theorem only_perform_bind {e : E} {f : S → Program E S A} (he : G e) (h : ∀ s, (f s).Only G) :
    (perform e >>= f).Only G :=
  only_step he h

theorem only_bind {p : Program E S A} {f : A → Program E S B} (hp : p.Only G)
    (hf : ∀ a, (f a).Only G) : (p >>= f).Only G := by
  induction p with
  | done a => exact hf a
  | step e next ih =>
      exact only_step (hp e (.here e next)) fun s => ih s fun e' h => hp e' (.later s h)

end Offers

variable [Interprets E S]

/-- Run a program to its end. -/
def run : Program E S A → S → A × S
  | done a, s => (a, s)
  | step e next, s => (next s).run (apply e s)

/-- The stores in which a program can be cut, the final one included. -/
def cuts : Program E S A → S → List S
  | done _, s => [s]
  | step e next, s => s :: (next s).cuts (apply e s)

/-- The performed effects, each with the store it was performed in. -/
def trace : Program E S A → S → List (S × E)
  | done _, _ => []
  | step e next, s => (s, e) :: (next s).trace (apply e s)

@[simp] theorem run_done (a : A) (s : S) : (done a : Program E S A).run s = (a, s) := rfl

@[simp] theorem run_step (e : E) (next : S → Program E S A) (s : S) :
    (step e next).run s = (next s).run (apply e s) := rfl

@[simp] theorem run_perform (e : E) (s : S) :
    (perform e : Program E S S).run s = (s, apply e s) := rfl

theorem run_bind (p : Program E S A) (f : A → Program E S B) (s : S) :
    (p >>= f).run s = (f (p.run s).1).run (p.run s).2 := by
  induction p generalizing s with
  | done a => rfl
  | step e next ih => exact ih s (apply e s)

@[simp] theorem trace_done (a : A) (s : S) : (done a : Program E S A).trace s = [] := rfl

@[simp] theorem trace_step (e : E) (next : S → Program E S A) (s : S) :
    (step e next).trace s = (s, e) :: (next s).trace (apply e s) := rfl

/-- A sequence performs the effects of its parts one after the other. -/
theorem trace_bind (p : Program E S A) (f : A → Program E S B) (s : S) :
    (p >>= f).trace s = p.trace s ++ (f (p.run s).1).trace (p.run s).2 := by
  induction p generalizing s with
  | done a => rfl
  | step e next ih => exact congrArg ((s, e) :: ·) (ih s (apply e s))

@[simp] theorem cuts_done (a : A) (s : S) : (done a : Program E S A).cuts s = [s] := rfl

@[simp] theorem cuts_step (e : E) (next : S → Program E S A) (s : S) :
    (step e next).cuts s = s :: (next s).cuts (apply e s) := rfl

/-- A sequence is cut in its first part, or in its second part after the first has ended. -/
theorem mem_cuts_bind {p : Program E S A} {f : A → Program E S B} {s s' : S} :
    s' ∈ (p >>= f).cuts s ↔ s' ∈ p.cuts s ∨ s' ∈ (f (p.run s).1).cuts (p.run s).2 := by
  induction p generalizing s with
  | done a =>
      simp only [done_bind, run_done, cuts_done, List.mem_singleton, iff_or_self]
      rintro rfl
      cases f a <;> simp
  | step e next ih =>
      simp only [step_bind, cuts_step, List.mem_cons, run_step, ih s, or_assoc]

/-- A cut program has come where its effects, performed one by one, lead. -/
theorem reaches_cut {R : S → S → Prop} {p : Program E S A} {s s' : S}
    (hR : ∀ s e, p.Offers e → R s (apply e s)) (h : s' ∈ p.cuts s) :
    Relation.ReflTransGen R s s' := by
  induction p generalizing s with
  | done a =>
      rw [List.mem_singleton.mp h]
  | step e next ih =>
      rcases List.mem_cons.mp h with rfl | h
      · exact Relation.ReflTransGen.refl
      · have hnext := ih s (fun s' e' he => hR s' e' (.later s he)) h
        exact Relation.ReflTransGen.head (hR s e (.here e next)) hnext

theorem run_mem_cuts (p : Program E S A) (s : S) : (p.run s).2 ∈ p.cuts s := by
  induction p generalizing s with
  | done a => simp
  | step e next ih => exact List.mem_cons_of_mem _ (ih s (apply e s))

/-- Every performed effect satisfies `G` in its store, and the result satisfies `Q`. -/
def wp (G : S → E → Prop) (Q : A → S → Prop) : Program E S A → S → Prop
  | done a, s => Q a s
  | step e next, s => G s e ∧ (next s).wp G Q (apply e s)

section Rules

variable {G G' : S → E → Prop} {Q Q' : A → S → Prop}

@[simp] theorem wp_done (a : A) (s : S) : (done a).wp G Q s ↔ Q a s := Iff.rfl

@[simp] theorem wp_step (e : E) (next : S → Program E S A) (s : S) :
    (step e next).wp G Q s ↔ G s e ∧ (next s).wp G Q (apply e s) := Iff.rfl

@[simp] theorem wp_perform (e : E) (Q : S → S → Prop) (s : S) :
    (perform e).wp G Q s ↔ G s e ∧ Q s (apply e s) := Iff.rfl

/-- Sequencing composes guarantees and hands the first result to the second program. -/
@[simp] theorem wp_bind (p : Program E S A) (f : A → Program E S B)
    (R : B → S → Prop) (s : S) :
    (p >>= f).wp G R s ↔ p.wp G (fun a s' => (f a).wp G R s') s := by
  induction p generalizing s with
  | done a => rfl
  | step e next ih => exact and_congr_right fun _ => ih s (apply e s)

theorem wp_mono {p : Program E S A} {s : S} (h : p.wp G Q s)
    (hG : ∀ s e, G s e → G' s e) (hQ : ∀ a s, Q a s → Q' a s) : p.wp G' Q' s := by
  induction p generalizing s with
  | done a => exact hQ a s h
  | step e next ih => exact ⟨hG s e h.1, ih s h.2⟩

theorem wp_post {p : Program E S A} {s : S} (h : p.wp G Q s)
    (hQ : ∀ a s, Q a s → Q' a s) : p.wp G Q' s :=
  wp_mono h (fun _ _ => id) hQ

/-- The result of a run satisfies every proved postcondition. -/
theorem wp_run {p : Program E S A} {s : S} (h : p.wp G Q s) :
    Q (p.run s).1 (p.run s).2 := by
  induction p generalizing s with
  | done a => exact h
  | step e next ih => exact ih s h.2

/-- Every performed effect satisfies the proved guarantee. -/
theorem wp_trace {p : Program E S A} {s : S} (h : p.wp G Q s) :
    ∀ x ∈ p.trace s, G x.1 x.2 := by
  induction p generalizing s with
  | done a => simp [trace]
  | step e next ih =>
      intro x hx
      rcases List.mem_cons.mp hx with rfl | hx
      · exact h.1
      · exact ih s h.2 x hx

/-- An assertion kept by every permitted effect holds at every effect and at the end. -/
theorem wp_keeps {I : S → Prop} {p : Program E S A} {s : S} (h : p.wp G Q s) (hI : I s)
    (keep : ∀ s e, I s → G s e → I (apply e s)) :
    p.wp (fun s e => I s ∧ G s e) (fun a s => I s ∧ Q a s) s := by
  induction p generalizing s with
  | done a => exact ⟨hI, h⟩
  | step e next ih => exact ⟨⟨hI, h.1⟩, ih s h.2 (keep s e hI h.1)⟩

/-- A program of effects that satisfy `K` performs no others. -/
theorem wp_of_only {K : E → Prop} {p : Program E S A} (h : p.Only K) (s : S) :
    p.wp (fun _ e => K e) (fun _ _ => True) s := by
  induction p generalizing s with
  | done a => trivial
  | step e next ih =>
      exact ⟨h e (.here e next), ih s (fun e' he' => h e' (.later s he')) (apply e s)⟩

/-- What every effect of a program keeps holds at its end. -/
theorem wp_only_keeps {K : E → Prop} {I : S → Prop} {p : Program E S A} {s : S} (h : p.Only K)
    (hI : I s) (keep : ∀ s e, I s → K e → I (apply e s)) :
    p.wp (fun _ _ => True) (fun _ s' => I s') s :=
  wp_mono (wp_keeps (wp_of_only h s) hI keep) (fun _ _ _ => trivial) fun _ _ h => h.1

/-- An assertion that holds at every effect and at the end holds at every cut. -/
theorem wp_cuts {I : S → Prop} {p : Program E S A} {s : S}
    (h : p.wp (fun s _ => I s) (fun _ s => I s) s) : ∀ s' ∈ p.cuts s, I s' := by
  induction p generalizing s with
  | done a => simpa using h
  | step e next ih =>
      intro s' hs
      rcases List.mem_cons.mp hs with rfl | hs
      · exact h.1
      · exact ih s h.2 s' hs

/-- The invariant rule: what every permitted effect keeps holds at every cut. -/
theorem wp_invariant {I : S → Prop} {p : Program E S A} {s : S} (h : p.wp G Q s) (hI : I s)
    (keep : ∀ s e, I s → G s e → I (apply e s)) : ∀ s' ∈ p.cuts s, I s' :=
  wp_cuts (wp_mono (wp_keeps h hI keep) (fun _ _ h => h.1) fun _ _ h => h.1)

end Rules

end Program

end Dalston.Foundation
