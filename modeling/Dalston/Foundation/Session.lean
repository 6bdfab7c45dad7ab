import Dalston.Foundation.Pool

/-!
# Programs that remember

A session keeps what a program has learnt from the stores its effects were
performed in. An effect of a session carries what the program knew when it came
to the effect, so the turns of a pool can be judged by what their callers know.

## Implementation notes

What a program does with its knowledge is a property of the program alone:
`Heeds` answers its reads by any stores. The pool adds that every effect is
performed with the knowledge its own call has gathered.
-/

namespace Dalston.Foundation

/-- An effect with what its program knows. -/
structure Noted (E K : Type) where
  effect : E
  known : K

variable {C E S A B K : Type}

instance [Interprets E S] : Interprets (Noted E K) S := ⟨fun n => apply n.effect⟩

@[simp] theorem apply_noted [Interprets E S] (n : Noted E K) (s : S) :
    apply n s = apply n.effect s := rfl

namespace Program

variable (learn : K → E → S → K) (G : K → E → Prop)

/-- The program in a session that starts with the given knowledge. -/
def noting : Program E S A → K → Program (Noted E K) S (A × K)
  | done a, k => done (a, k)
  | step e next, k => step ⟨e, k⟩ fun s => (next s).noting (learn k e s)

/-- Whatever stores its effects are performed in, every effect satisfies `G` with what the
program knows, and the result satisfies `Q`. -/
def Heeds (Q : A → K → Prop) : Program E S A → K → Prop
  | done a, k => Q a k
  | step e next, k => G k e ∧ ∀ s, (next s).Heeds Q (learn k e s)

variable {learn G}

section Heeds

variable {Q Q' : A → K → Prop}

@[simp] theorem heeds_done (a : A) (k : K) :
    (done a : Program E S A).Heeds learn G Q k ↔ Q a k := Iff.rfl

@[simp] theorem heeds_perform_bind {e : E} {f : S → Program E S A} {k : K} :
    (perform e >>= f).Heeds learn G Q k ↔
      G k e ∧ ∀ s, (f s).Heeds learn G Q (learn k e s) := Iff.rfl

theorem heeds_mono {p : Program E S A} {k : K} (h : p.Heeds learn G Q k)
    (hQ : ∀ a k', Q a k' → Q' a k') : p.Heeds learn G Q' k := by
  induction p generalizing k with
  | done a => exact hQ a k h
  | step e next ih => exact ⟨h.1, fun s => ih s (h.2 s)⟩

/-- A sequence heeds `G` when its second part does with what the first has learnt. -/
theorem heeds_bind {p : Program E S A} {f : A → Program E S B} {Q : B → K → Prop} {k : K} :
    (p >>= f).Heeds learn G Q k ↔
      p.Heeds learn G (fun a k' => (f a).Heeds learn G Q k') k := by
  induction p generalizing k with
  | done a => rfl
  | step e next ih => exact and_congr_right fun _ => forall_congr' fun s => ih s

/-- A program of effects that satisfy `G` with any knowledge of a kind they keep. -/
theorem heeds_of_only {H : E → Prop} {R : K → Prop} {p : Program E S A} {k : K} (h : p.Only H)
    (hR : R k) (hG : ∀ k e, R k → H e → G k e) (keep : ∀ k e s, R k → H e → R (learn k e s))
    (hQ : ∀ a k', R k' → Q a k') : p.Heeds learn G Q k := by
  induction p generalizing k with
  | done a => exact hQ a k hR
  | step e next ih =>
      have he : H e := h e (.here e next)
      refine ⟨hG k e hR he, fun s => ?_⟩
      exact ih s (fun e' h' => h e' (.later s h')) (keep k e s hR he)

end Heeds

/-- The program on a larger store, with its effects taken for effects on that store. -/
def within {E' S' : Type} (f : E → E') (view : S' → S) : Program E S A → Program E' S' A
  | done a => done a
  | step e next => step (f e) fun s => (next (view s)).within f view

theorem only_within {E' S' : Type} {f : E → E'} {view : S' → S} {H : E → Prop} {H' : E' → Prop}
    {p : Program E S A} (h : p.Only H) (hf : ∀ e, H e → H' (f e)) :
    (p.within f view).Only H' := by
  induction p with
  | done a => exact only_done a
  | step e next ih =>
      exact only_step (hf e (h e (.here e next))) fun s => ih (view s) fun e' he => h e' (.later _ he)

/-- In a session the program moves by what it knows. -/
theorem follows_noting {Q : A → K → Prop} {J : S → Prop} {p : Program E S A} {k : K}
    (h : p.Heeds learn G Q k) :
    (p.noting learn k).Follows
      (fun k s n k' => n.known = k ∧ G k n.effect ∧ k' = learn k n.effect s) J
      (fun r k' => r.2 = k' ∧ Q r.1 k') k := by
  induction p generalizing k with
  | done a => exact ⟨rfl, h⟩
  | step e next ih => exact fun s _ => ⟨learn k e s, ⟨rfl, h.1, rfl⟩, ih s (h.2 s)⟩

end Program

section Pools

variable [Interprets E S] {learn : K → E → S → K} {G : K → E → Prop} {Q : C → A → K → Prop}
  {code : C → Program E S A} {k₀ : K}
  {ok : Pool C (Noted E K) S (A × K) → Turn C (Noted E K) → Prop}

/-- The moves of a session. -/
def Notes (learn : K → E → S → K) (G : K → E → Prop) (k : K) (s : S) (n : Noted E K) (k' : K) :
    Prop :=
  n.known = k ∧ G k n.effect ∧ k' = learn k n.effect s

/-- The sessions of a pool, when each call heeds `G` and ends in `Q`. -/
abbrev InSession (learn : K → E → S → K) (G : K → E → Prop) (Q : C → A → K → Prop)
    (pool : Pool C (Noted E K) S (A × K)) (gs : Multiset (Local C S K)) : Prop :=
  pool.Matches (fun _ => Notes learn G) (fun _ => True) (fun c r k' => r.2 = k' ∧ Q c r.1 k') gs

/-- An invariant of the store and of what the calls know, kept by every turn. -/
structure Remembers (learn : K → E → S → K) (G : K → E → Prop) (k₀ : K)
    (ok : Pool C (Noted E K) S (A × K) → Turn C (Noted E K) → Prop)
    (I : S → Prop) (J : S → K → Prop) : Prop where
  start : ∀ s, J s k₀
  step : ∀ pool i n, ok pool (.move i) → pool.next? i = some n → I pool.store →
    J pool.store n.known → G n.known n.effect → I (apply n.effect pool.store) ∧
      J (apply n.effect pool.store) (learn n.known n.effect pool.store)
  others : ∀ pool i n k, ok pool (.move i) → pool.next? i = some n → I pool.store →
    J pool.store n.known → J pool.store k → G n.known n.effect → J (apply n.effect pool.store) k
  outside : ∀ pool n, ok pool (.outside n) → I pool.store → I (apply n.effect pool.store) ∧
    ∀ k, J pool.store k → J (apply n.effect pool.store) k

/-- The knowledge is that of a call at its next effect, or one that a call ends with. -/
def Bears (Q : C → A → K → Prop) (pool : Pool C (Noted E K) S (A × K)) (k : K) : Prop :=
  (∃ i n, pool.next? i = some n ∧ n.known = k) ∨ ∃ c a, Q c a k

/-- An invariant as in `Remembers`, where the other calls are those of the pool. -/
structure RemembersBorne (learn : K → E → S → K) (G : K → E → Prop) (Q : C → A → K → Prop) (k₀ : K)
    (ok : Pool C (Noted E K) S (A × K) → Turn C (Noted E K) → Prop)
    (I : S → Prop) (J : S → K → Prop) : Prop where
  start : ∀ s, J s k₀
  step : ∀ pool i n, ok pool (.move i) → pool.next? i = some n → I pool.store →
    J pool.store n.known → G n.known n.effect → I (apply n.effect pool.store) ∧
      J (apply n.effect pool.store) (learn n.known n.effect pool.store)
  others : ∀ pool i n k, ok pool (.move i) → pool.next? i = some n → I pool.store →
    J pool.store n.known → Bears Q pool k → J pool.store k → G n.known n.effect →
      J (apply n.effect pool.store) k
  outside : ∀ pool n, ok pool (.outside n) → I pool.store → I (apply n.effect pool.store) ∧
    ∀ k, J pool.store k → J (apply n.effect pool.store) k

theorem Remembers.borne {I : S → Prop} {J : S → K → Prop} (h : Remembers learn G k₀ ok I J) :
    RemembersBorne learn G Q k₀ ok I J :=
  ⟨h.start, h.step, fun pool i n k hok hn hI hJ _ => h.others pool i n k hok hn hI hJ, h.outside⟩

/-- What is known of the sessions of a pool and of the calls that have returned. -/
structure Sessions (learn : K → E → S → K) (G : K → E → Prop) (Q : C → A → K → Prop)
    (I : S → Prop) (J : S → K → Prop) (pool : Pool C (Noted E K) S (A × K))
    (gs : Multiset (Local C S K)) : Prop where
  underWay : InSession learn G Q pool gs
  store : I pool.store
  known : ∀ g ∈ gs, J pool.store g.state
  returned : ∀ r ∈ pool.returned, J pool.store r.result.2 ∧ Q r.call r.result.1 r.result.2

omit [Interprets E S] in
/-- The local state of a thread is knowledge that the pool bears. -/
theorem bears_of_matching {pool : Pool C (Noted E K) S (A × K)}
    {ts : List (Thread C (Noted E K) S (A × K))} (hts : ts ⊆ pool.threads)
    {gs : Multiset (Local C S K)}
    (h : Multiset.Rel (Thread.Matches (fun _ => Notes learn G) (fun _ => True)
      (fun c (r : A × K) k' => r.2 = k' ∧ Q c r.1 k')) ts gs) {g : Local C S K} (hg : g ∈ gs) :
    Bears Q pool g.state := by
  obtain ⟨t, ht, hmatch⟩ := Thread.exists_matching h hg
  obtain ⟨i, hi, hget⟩ := List.getElem_of_mem (hts ht)
  have hfollows := hmatch.follows
  cases hrest : t.rest with
  | done r =>
      rw [hrest] at hfollows
      exact Or.inr ⟨_, _, hfollows.2⟩
  | step n next =>
      rw [hrest] at hfollows
      obtain ⟨_, ⟨hknown, _⟩, _⟩ := hfollows pool.store trivial
      refine Or.inl ⟨i, n, ?_, hknown⟩
      simp [Pool.next?, List.getElem?_eq_getElem hi, hget, hrest]

/-- The invariant rule of sessions. -/
theorem RemembersBorne.run {I : S → Prop} {J : S → K → Prop}
    (h : RemembersBorne learn G Q k₀ ok I J)
    (hcode : ∀ c, (code c).Heeds learn G (Q c) k₀) {s₀ : S} (hs₀ : I s₀)
    {pool : Pool C (Noted E K) S (A × K)}
    (run : Pool.Run (fun c => (code c).noting learn k₀) ok (Pool.idle s₀) pool) :
    ∃ gs, Sessions learn G Q I J pool gs := by
  have hp : Preserved (fun c => (code c).noting learn k₀) (fun _ => Notes learn G)
      (fun _ => True) (fun c r k' => r.2 = k' ∧ Q c r.1 k') (fun _ => k₀) ok
      (fun shared gs => I shared.store ∧ (∀ g ∈ gs, J shared.store g.state) ∧
        ∀ r ∈ shared.returned, J shared.store r.result.2 ∧ Q r.call r.result.1 r.result.2) := by
    refine ⟨fun _ c _ => Program.follows_noting (hcode c), fun _ _ _ => trivial,
      ?_, ?_, ?_, ?_, ?_⟩
    · rintro pool gs c - ⟨hI, hJ, hreturned⟩ -
      refine ⟨hI, fun g hg => ?_, hreturned⟩
      rcases Multiset.mem_cons.mp hg with rfl | hg
      · exact h.start pool.store
      · exact hJ g hg
    · rintro pool g gs i n k' ⟨hI, hJ, hreturned⟩ hok hnext hrel ⟨hknown, hG, rfl⟩
      have hg := hJ g (Multiset.mem_cons_self g gs)
      have hstep := h.step pool i n hok hnext hI (hknown ▸ hg) (hknown ▸ hG)
      rw [hknown] at hstep
      have hothers := fun k' hborne hk' =>
        h.others pool i n k' hok hnext hI (hknown ▸ hg) hborne hk' (hknown ▸ hG)
      refine ⟨hstep.1, fun g' hg' => ?_, fun r hr => ?_⟩
      · rcases Multiset.mem_cons.mp hg' with rfl | hg'
        · exact hstep.2
        · exact hothers g'.state (bears_of_matching (List.eraseIdx_subset) hrel hg')
            (hJ g' (Multiset.mem_cons_of_mem hg'))
      · exact ⟨hothers _ (Or.inr ⟨_, _, (hreturned r hr).2⟩) (hreturned r hr).1,
          (hreturned r hr).2⟩
    · rintro pool g gs a ⟨hI, hJ, hreturned⟩ ⟨hstate, hQ⟩
      refine ⟨hI, fun g' hg' => hJ g' (Multiset.mem_cons_of_mem hg'), fun r hr => ?_⟩
      rcases List.mem_cons.mp hr with rfl | hr
      · rw [hstate]
        exact ⟨hJ g (Multiset.mem_cons_self g gs), hQ⟩
      · exact hreturned r hr
    · rintro pool t g gs i ⟨hI, hJ, hreturned⟩ - - -
      exact ⟨hI, fun g' hg' => hJ g' (Multiset.mem_cons_of_mem hg'), hreturned⟩
    · rintro pool gs n - ⟨hI, hJ, hreturned⟩ hok
      have hout := h.outside pool n hok hI
      exact ⟨hout.1, fun g hg => hout.2 g.state (hJ g hg),
        fun r hr => ⟨hout.2 _ (hreturned r hr).1, (hreturned r hr).2⟩⟩
  obtain ⟨gs, hm, hI, hJ, hreturned⟩ :=
    hp.run run ⟨0, Pool.matches_idle s₀, hs₀, by simp, by simp [Pool.idle]⟩
  exact ⟨gs, hm, hI, hJ, hreturned⟩

theorem Remembers.run {I : S → Prop} {J : S → K → Prop} (h : Remembers learn G k₀ ok I J)
    (hcode : ∀ c, (code c).Heeds learn G (Q c) k₀) {s₀ : S} (hs₀ : I s₀)
    {pool : Pool C (Noted E K) S (A × K)}
    (run : Pool.Run (fun c => (code c).noting learn k₀) ok (Pool.idle s₀) pool) :
    ∃ gs, Sessions learn G Q I J pool gs :=
  h.borne.run hcode hs₀ run

omit [Interprets E S] in
/-- The effect a call comes to satisfies `G` with what the call knows. -/
theorem InSession.next {pool : Pool C (Noted E K) S (A × K)} {gs : Multiset (Local C S K)}
    (h : InSession learn G Q pool gs) {i : Nat} {n : Noted E K} (hn : pool.next? i = some n) :
    ∃ g ∈ gs, n.known = g.state ∧ G n.known n.effect := by
  obtain ⟨t, ht, hnext⟩ := Option.bind_eq_some_iff.mp hn
  obtain ⟨g, rest, rfl, hg, _⟩ := Pool.Matches.split h ht
  obtain ⟨_, hknown, hG, _⟩ := Program.follows_next hg.follows (s := pool.store) trivial hnext
  exact ⟨g, Multiset.mem_cons_self g rest, hknown, hknown ▸ hG⟩

end Pools

end Dalston.Foundation
