import Mathlib

/-!
# Lists that rise by single steps

The keys of a list may stay or rise by one from each element to the next. Such a list has
one run for each key from the first to the last, in order.
-/

namespace Dalston.Foundation

section Runs

variable {P : Type} {r : P → P → Bool}

theorem splitBy_cons_of_not {a b : P} (h : r a b = false) (l : List P) :
    (a :: b :: l).splitBy r = [a] :: (b :: l).splitBy r := by
  have hsingle : [a].splitBy r = [[a]] :=
    List.splitBy_of_isChain (List.cons_ne_nil a []) (List.isChain_singleton a)
  have hcut := List.splitBy_append_cons (r := r) (l := [a]) l (a := b) (by simpa using h)
  rwa [hsingle] at hcut

theorem splitBy_cons_of {a b : P} (h : r a b = true) (l : List P) :
    ∃ u us, (b :: l).splitBy r = (b :: u) :: us ∧
      (a :: b :: l).splitBy r = (a :: b :: u) :: us := by
  obtain ⟨hflat, hne, hchain, hcuts⟩ := List.splitBy_eq_iff.mp (rfl : (b :: l).splitBy r = _)
  obtain ⟨run, us, hruns⟩ := List.exists_cons_of_ne_nil
    (List.splitBy_ne_nil.mpr (List.cons_ne_nil b l) : (b :: l).splitBy r ≠ [])
  rw [hruns] at hflat hne hchain hcuts
  obtain ⟨c, u, rfl⟩ := List.exists_cons_of_ne_nil
    (fun hnil => hne (hnil ▸ List.mem_cons_self) : run ≠ [])
  obtain ⟨rfl, hl⟩ := List.cons.inj hflat
  refine ⟨u, us, hruns, List.splitBy_eq_iff.mpr ⟨?_, ?_, ?_, ?_⟩⟩
  · rw [hl]
    rfl
  · intro hnil
    rcases List.mem_cons.mp hnil with hnil | hnil
    · cases hnil
    · exact hne (List.mem_cons_of_mem _ hnil)
  · intro m hm
    rcases List.mem_cons.mp hm with rfl | hm
    · exact List.isChain_cons_cons.mpr ⟨h, hchain _ List.mem_cons_self⟩
    · exact hchain m (List.mem_cons_of_mem _ hm)
  · cases us with
    | nil => exact List.isChain_singleton _
    | cons v us =>
        obtain ⟨⟨ha, hb, hcut⟩, hrest⟩ := List.isChain_cons_cons.mp hcuts
        exact List.isChain_cons_cons.mpr ⟨⟨by simp, hb, by simpa using hcut⟩, hrest⟩

end Runs

section Stairs

variable {P : Type} (key : P → Nat)

/-- The keys stay or rise by one, from the first to the last. -/
structure Stairs (first last : Nat) (l : List P) : Prop where
  steps : l.IsChain fun p q => key p ≤ key q ∧ key q ≤ key p + 1
  head : ∀ p ∈ l.head?, key p = first
  last : ∀ p ∈ l.getLast?, key p = last
  nonempty : l ≠ []

variable {key} {first last : Nat}

theorem Stairs.le {l : List P} (h : Stairs key first last l) : first ≤ last := by
  obtain ⟨hsteps, hhead, hlast, hne⟩ := h
  induction l generalizing first with
  | nil => exact absurd rfl hne
  | cons p l ih =>
      have hp := hhead p rfl
      cases l with
      | nil => exact (hp.symm.trans (hlast p rfl)).le
      | cons q l =>
          obtain ⟨hstep, hsteps⟩ := List.isChain_cons_cons.mp hsteps
          have hrest := ih hsteps (fun _ hq => congrArg key (Option.mem_some_iff.mp hq).symm)
            (by simpa using hlast) (by simp)
          omega

/-- An element in front whose key is the same or one less. -/
theorem Stairs.cons {p : P} {l : List P} (h : Stairs key first last l)
    (hp : key p ≤ first ∧ first ≤ key p + 1) : Stairs key (key p) last (p :: l) := by
  obtain ⟨q, l, rfl⟩ := List.exists_cons_of_ne_nil h.nonempty
  have hq := h.head q rfl
  exact {
    steps := List.isChain_cons_cons.mpr ⟨by rwa [hq], h.steps⟩
    head := fun _ ha => congrArg key (Option.mem_some_iff.mp ha).symm
    last := by simpa using h.last
    nonempty := List.cons_ne_nil _ _ }

/-- Elements in front with the first key. -/
theorem Stairs.append_left {l l' : List P} (h : Stairs key first last l)
    (hfirst : ∀ p ∈ l', key p = first) : Stairs key first last (l' ++ l) := by
  induction l' with
  | nil => exact h
  | cons p l' ih =>
      have hp := hfirst p List.mem_cons_self
      have hrest := ih fun q hq => hfirst q (List.mem_cons_of_mem _ hq)
      have hcons := hrest.cons (p := p) (by omega)
      rwa [hp] at hcons

/-- There is one run for each key. -/
theorem Stairs.runs {l : List P} (h : Stairs key first last l) :
    List.Forall₂ (fun run k => run ≠ [] ∧ ∀ p ∈ run, key p = k)
      (l.splitBy fun p q => key p == key q) (List.range' first (last + 1 - first)) := by
  induction l generalizing first with
  | nil => exact absurd rfl h.nonempty
  | cons p l ih =>
      have hp := h.head p rfl
      subst hp
      cases l with
      | nil =>
          have hlast := h.last p rfl
          rw [← hlast, Nat.add_sub_cancel_left]
          exact .cons ⟨by simp, by simp⟩ .nil
      | cons q l =>
          obtain ⟨hstep, hsteps⟩ := List.isChain_cons_cons.mp h.steps
          have hrest : Stairs key (key q) last (q :: l) :=
            ⟨hsteps, fun _ ha => congrArg key (Option.mem_some_iff.mp ha).symm,
              by simpa using h.last, by simp⟩
          have hle := hrest.le
          have hruns := ih hrest
          by_cases hsame : key p = key q
          · obtain ⟨u, us, hus, husp⟩ := splitBy_cons_of
              (r := fun p q => key p == key q) (a := p) (b := q) (by simpa using hsame) l
            rw [hus] at hruns
            rw [husp, hsame]
            have hlen : last + 1 - key q = last - key q + 1 := by omega
            rw [hlen, List.range'_succ] at hruns ⊢
            cases hruns with
            | cons hhead hmore =>
                refine .cons ⟨by simp, fun a ha => ?_⟩ hmore
                rcases List.mem_cons.mp ha with rfl | ha
                · exact hsame
                · exact hhead.2 a ha
          · have hq : key q = key p + 1 := by omega
            rw [splitBy_cons_of_not (by simpa using hsame) l]
            have hlen : last + 1 - key p = last + 1 - key q + 1 := by omega
            rw [hlen, List.range'_succ, ← hq]
            exact .cons ⟨by simp, by simp⟩ hruns

end Stairs

end Dalston.Foundation
