import Dalston.Foundation.Program

/-!
# Programs side by side

A pool runs any number of calls on one store. Each call is a program of atomic
effects; the pool may take the next effect of any call at any time, so a run of
the pool is an interleaving of its calls. A call can be given up between two
effects, and effects may come from outside.

## Implementation notes

What a call owns is not written in its program. A protocol gives every call a
local state and says which effects move it where. A program follows a protocol
when every effect it comes to perform is such a move, and an invariant of a pool
is one of its store together with the local states of its calls.
-/

namespace Dalston.Foundation

namespace Program

variable {E S A B L : Type}

/-- The effect the program performs next. -/
def next? : Program E S A → Option E
  | done _ => none
  | step e _ => some e

@[simp] theorem next?_done (a : A) : (done a : Program E S A).next? = none := rfl

@[simp] theorem next?_step (e : E) (next : S → Program E S A) :
    (step e next).next? = some e := rfl

/-- From the local state, every effect is a move of `R` in every store that satisfies `J`,
and the result satisfies `Q`. -/
def Follows (R : L → S → E → L → Prop) (J : S → Prop) (Q : A → L → Prop) :
    Program E S A → L → Prop
  | done a, l => Q a l
  | step e next, l => ∀ s, J s → ∃ l', R l s e l' ∧ (next s).Follows R J Q l'

section Follows

variable {R : L → S → E → L → Prop} {J : S → Prop} {Q Q' : A → L → Prop}

@[simp] theorem follows_done (a : A) (l : L) : (done a).Follows R J Q l ↔ Q a l := Iff.rfl

@[simp] theorem follows_step (e : E) (next : S → Program E S A) (l : L) :
    (step e next).Follows R J Q l ↔ ∀ s, J s → ∃ l', R l s e l' ∧ (next s).Follows R J Q l' :=
  Iff.rfl

@[simp] theorem follows_perform (e : E) (Q : S → L → Prop) (l : L) :
    (perform e).Follows R J Q l ↔ ∀ s, J s → ∃ l', R l s e l' ∧ Q s l' :=
  Iff.rfl

theorem follows_perform_bind {e : E} {f : S → Program E S A} {l : L} :
    (perform e >>= f).Follows R J Q l ↔
      ∀ s, J s → ∃ l', R l s e l' ∧ (f s).Follows R J Q l' :=
  Iff.rfl

theorem follows_mono {p : Program E S A} {l : L} (h : p.Follows R J Q l)
    (hQ : ∀ a l, Q a l → Q' a l) : p.Follows R J Q' l := by
  induction p generalizing l with
  | done a => exact hQ a l h
  | step e next ih =>
      intro s hs
      obtain ⟨l', hmove, hnext⟩ := h s hs
      exact ⟨l', hmove, ih s hnext⟩

/-- The next effect of a program that follows a protocol is one of its moves. -/
theorem follows_next {p : Program E S A} {l : L} (h : p.Follows R J Q l) {s : S} (hs : J s)
    {e : E} (he : p.next? = some e) : ∃ l', R l s e l' := by
  cases p with
  | done a => cases he
  | step e' next =>
      obtain rfl := Option.some.inj he
      obtain ⟨l', hmove, _⟩ := h s hs
      exact ⟨l', hmove⟩

theorem follows_end {p : Program E S A} {l : L} (h : p.Follows R J Q l) (he : p.next? = none) :
    ∃ a, Q a l := by
  cases p with
  | done a => exact ⟨a, h⟩
  | step e next => cases he

/-- A sequence follows the protocol when its second part does from where the first ends. -/
theorem follows_bind {p : Program E S A} {f : A → Program E S B} {Q : B → L → Prop} {l : L} :
    (p >>= f).Follows R J Q l ↔ p.Follows R J (fun a l' => (f a).Follows R J Q l') l := by
  induction p generalizing l with
  | done a => rfl
  | step e next ih =>
      simp only [step_bind, follows_step]
      constructor
      · intro h s hs
        obtain ⟨l', hmove, hnext⟩ := h s hs
        exact ⟨l', hmove, (ih s).mp hnext⟩
      · intro h s hs
        obtain ⟨l', hmove, hnext⟩ := h s hs
        exact ⟨l', hmove, (ih s).mpr hnext⟩

/-- Effects that leave the local state alone keep any program at it. -/
theorem follows_of_only {G : E → Prop} {p : Program E S A} {l : L} (h : p.Only G)
    (hmove : ∀ s e, G e → R l s e l) (hQ : ∀ a, Q a l) : p.Follows R J Q l := by
  induction p with
  | done a => exact hQ a
  | step e next ih =>
      intro s _
      exact ⟨l, hmove s e (h e (.here e next)), ih s fun e' he => h e' (.later s he)⟩

end Follows

end Program

/-- A call under way: the store it was made in, and what is left of it. -/
structure Thread (C E S A : Type) where
  call : C
  born : S
  rest : Program E S A

/-- A call that has returned. -/
structure Return (C S A : Type) where
  call : C
  born : S
  result : A

/-- What a pool shows besides its calls under way; the latest return and the latest
effect come first. -/
structure Shared (C E S A : Type) where
  store : S
  returned : List (Return C S A)
  history : List E

structure Pool (C E S A : Type) extends Shared C E S A where
  threads : List (Thread C E S A)

/-- A turn of the scheduler. -/
inductive Turn (C E : Type)
  | start (c : C)
  | move (i : Nat)
  | fail (i : Nat)
  | outside (e : E)

variable {C E S A L : Type} [Interprets E S]

def Shared.perform (s : Shared C E S A) (e : E) : Shared C E S A :=
  { s with store := apply e s.store, history := e :: s.history }

namespace Pool

/-- A pool in which nothing has been called. -/
def idle (s : S) : Pool C E S A := ⟨⟨s, [], []⟩, []⟩

/-- The next effect of a call under way. -/
def next? (pool : Pool C E S A) (i : Nat) : Option E := (pool.threads[i]?).bind (·.rest.next?)

/-- Let the thread at a position perform its next effect, or return. -/
def moveThread (pool : Pool C E S A) (i : Nat) (t : Thread C E S A) : Pool C E S A :=
  match t.rest with
  | .done a =>
      { pool with
          threads := pool.threads.eraseIdx i
          returned := ⟨t.call, t.born, a⟩ :: pool.returned }
  | .step e next =>
      { toShared := pool.toShared.perform e
        threads := pool.threads.set i { t with rest := next pool.store } }

def turn (code : C → Program E S A) (pool : Pool C E S A) : Turn C E → Pool C E S A
  | .start c => { pool with threads := pool.threads ++ [⟨c, pool.store, code c⟩] }
  | .move i =>
      match pool.threads[i]? with
      | none => pool
      | some t => pool.moveThread i t
  | .fail i => { pool with threads := pool.threads.eraseIdx i }
  | .outside e => { pool with store := apply e pool.store }

/-- A turn changes the store by the effect it performs, if any. -/
theorem store_turn (code : C → Program E S A) (pool : Pool C E S A) (t : Turn C E) :
    (pool.turn code t).store = pool.store ∨
      (∃ i e, t = .move i ∧ pool.next? i = some e ∧
        (pool.turn code t).store = apply e pool.store) ∨
      ∃ e, t = .outside e ∧ (pool.turn code t).store = apply e pool.store := by
  cases t with
  | start c => exact Or.inl rfl
  | fail i => exact Or.inl rfl
  | outside e => exact Or.inr (Or.inr ⟨e, rfl, rfl⟩)
  | move i =>
      simp only [turn]
      rcases ht : pool.threads[i]? with _ | t
      · exact Or.inl rfl
      simp only [moveThread]
      rcases hprog : t.rest with a | ⟨e, next⟩
      · exact Or.inl rfl
      · exact Or.inr (Or.inl ⟨i, e, rfl, by simp [next?, ht, hprog], rfl⟩)

/-- One turn that is allowed where it is taken. -/
inductive Step (code : C → Program E S A) (ok : Pool C E S A → Turn C E → Prop) :
    Pool C E S A → Pool C E S A → Prop
  | turn {pool : Pool C E S A} (t : Turn C E) (h : ok pool t) : Step code ok pool (pool.turn code t)

abbrev Run (code : C → Program E S A) (ok : Pool C E S A → Turn C E → Prop) :
    Pool C E S A → Pool C E S A → Prop :=
  Relation.ReflTransGen (Step code ok)

/-- Take the turns one after the other. -/
def turns (code : C → Program E S A) (pool : Pool C E S A) (ts : List (Turn C E)) :
    Pool C E S A :=
  ts.foldl (turn code) pool

/-- Every turn is allowed where it is taken. -/
def Allowed (code : C → Program E S A) (ok : Pool C E S A → Turn C E → Prop) :
    Pool C E S A → List (Turn C E) → Prop
  | _, [] => True
  | pool, t :: ts => ok pool t ∧ Allowed code ok (pool.turn code t) ts

instance (code : C → Program E S A) (ok : Pool C E S A → Turn C E → Prop)
    [∀ pool t, Decidable (ok pool t)] :
    ∀ pool ts, Decidable (Allowed code ok pool ts)
  | _, [] => isTrue trivial
  | pool, t :: ts =>
      have := instDecidableAllowed code ok (pool.turn code t) ts
      inferInstanceAs (Decidable (ok pool t ∧ Allowed code ok (pool.turn code t) ts))

theorem allowed_of_forall {code : C → Program E S A} {ok : Pool C E S A → Turn C E → Prop}
    {ts : List (Turn C E)} (h : ∀ t ∈ ts, ∀ pool, ok pool t) (pool : Pool C E S A) :
    Allowed code ok pool ts := by
  induction ts generalizing pool with
  | nil => trivial
  | cons t ts ih => exact ⟨h t (by simp) pool, ih (fun t' ht' => h t' (by simp [ht'])) _⟩

theorem run_of_allowed {code : C → Program E S A} {ok : Pool C E S A → Turn C E → Prop}
    {pool : Pool C E S A} {ts : List (Turn C E)} (h : Allowed code ok pool ts) :
    Run code ok pool (pool.turns code ts) := by
  induction ts generalizing pool with
  | nil => exact Relation.ReflTransGen.refl
  | cons t ts ih => exact Relation.ReflTransGen.head (.turn t h.1) (ih h.2)

end Pool

/-- The local state of a call under way. -/
structure Local (C S L : Type) where
  call : C
  born : S
  state : L

section Invariants

variable {code : C → Program E S A} {R : C → L → S → E → L → Prop} {J : S → Prop}
  {Q : C → A → L → Prop} {init : C → L} {ok : Pool C E S A → Turn C E → Prop}
  {I : Shared C E S A → Multiset (Local C S L) → Prop}

/-- The local state is one from which the thread follows its protocol. -/
structure Thread.Matches (R : C → L → S → E → L → Prop) (J : S → Prop) (Q : C → A → L → Prop)
    (t : Thread C E S A) (g : Local C S L) : Prop where
  call : t.call = g.call
  born : t.born = g.born
  follows : t.rest.Follows (R g.call) J (Q g.call) g.state

/-- Every thread has a local state of its own. -/
def Pool.Matches (R : C → L → S → E → L → Prop) (J : S → Prop) (Q : C → A → L → Prop)
    (pool : Pool C E S A) (gs : Multiset (Local C S L)) : Prop :=
  Multiset.Rel (Thread.Matches R J Q) pool.threads gs

omit [Interprets E S] in
theorem Pool.matches_idle (s : S) : (Pool.idle s : Pool C E S A).Matches R J Q 0 := .zero

omit [Interprets E S] in
/-- The thread at a position has a local state among them. -/
theorem Pool.Matches.split {pool : Pool C E S A} {gs : Multiset (Local C S L)} {i : Nat}
    {t : Thread C E S A} (h : pool.Matches R J Q gs) (ht : pool.threads[i]? = some t) :
    ∃ g rest, gs = g ::ₘ rest ∧ t.Matches R J Q g ∧
      Multiset.Rel (Thread.Matches R J Q) (pool.threads.eraseIdx i) rest := by
  obtain ⟨hi, rfl⟩ := List.getElem?_eq_some_iff.mp ht
  have hperm : (pool.threads : Multiset (Thread C E S A)) =
      pool.threads[i] ::ₘ (pool.threads.eraseIdx i : Multiset (Thread C E S A)) :=
    Multiset.coe_eq_coe.mpr (List.getElem_cons_eraseIdx_perm hi).symm
  rw [Pool.Matches, hperm] at h
  obtain ⟨g, rest, hg, hrest, rfl⟩ := Multiset.rel_cons_left.mp h
  exact ⟨g, rest, rfl, hg, hrest⟩

omit [Interprets E S] in
theorem Thread.exists_matching {ts : List (Thread C E S A)} {gs : Multiset (Local C S L)}
    (h : Multiset.Rel (Thread.Matches R J Q) ts gs) {g : Local C S L} (hg : g ∈ gs) :
    ∃ t ∈ ts, t.Matches R J Q g := by
  obtain ⟨rest, rfl⟩ := Multiset.exists_cons_of_mem hg
  obtain ⟨t, ts', ht, _, hthreads⟩ := Multiset.rel_cons_right.mp h
  refine ⟨t, ?_, ht⟩
  rw [← Multiset.mem_coe, hthreads]
  exact Multiset.mem_cons_self t ts'

omit [Interprets E S] in
theorem Pool.Matches.exists_thread {pool : Pool C E S A} {gs : Multiset (Local C S L)}
    (h : pool.Matches R J Q gs) {g : Local C S L} (hg : g ∈ gs) :
    ∃ t ∈ pool.threads, t.Matches R J Q g :=
  Thread.exists_matching h hg

omit [Interprets E S] in
/-- A test of threads that agrees with one of their local states counts the same. -/
theorem Thread.countP_eq {ts : List (Thread C E S A)} {gs : Multiset (Local C S L)}
    (h : Multiset.Rel (Thread.Matches R J Q) ts gs) {p : Thread C E S A → Bool}
    {q : Local C S L → Bool} (hpq : ∀ t g, t.Matches R J Q g → p t = q g) :
    ts.countP p = gs.countP fun g => q g := by
  have hcount : ∀ (ts : Multiset (Thread C E S A)) (gs : Multiset (Local C S L)),
      Multiset.Rel (Thread.Matches R J Q) ts gs →
      (ts.countP fun t => p t) = gs.countP fun g => q g := by
    intro ts gs hrel
    induction hrel with
    | zero => simp
    | cons hab _ ih => simp [Multiset.countP_cons, ih, hpq _ _ hab]
  simpa using hcount _ _ h

/-- Every allowed turn of a pool whose calls follow the protocol keeps the invariant. -/
structure Preserved (code : C → Program E S A) (R : C → L → S → E → L → Prop) (J : S → Prop)
    (Q : C → A → L → Prop) (init : C → L) (ok : Pool C E S A → Turn C E → Prop)
    (I : Shared C E S A → Multiset (Local C S L) → Prop) : Prop where
  code : ∀ (pool : Pool C E S A) c, ok pool (.start c) →
    (code c).Follows (R c) J (Q c) (init c)
  store : ∀ s gs, I s gs → J s.store
  start : ∀ (pool : Pool C E S A) gs c, pool.Matches R J Q gs → I pool.toShared gs →
    ok pool (.start c) → I pool.toShared (⟨c, pool.store, init c⟩ ::ₘ gs)
  move : ∀ (pool : Pool C E S A) g gs i e l, I pool.toShared (g ::ₘ gs) → ok pool (.move i) →
    pool.next? i = some e → Multiset.Rel (Thread.Matches R J Q) (pool.threads.eraseIdx i) gs →
    R g.call g.state pool.store e l → I (pool.toShared.perform e) ({ g with state := l } ::ₘ gs)
  done : ∀ (pool : Pool C E S A) g gs a, I pool.toShared (g ::ₘ gs) → Q g.call a g.state →
    I { pool.toShared with returned := ⟨g.call, g.born, a⟩ :: pool.returned } gs
  fail : ∀ (pool : Pool C E S A) t g gs i, I pool.toShared (g ::ₘ gs) → ok pool (.fail i) →
    pool.threads[i]? = some t → t.Matches R J Q g → I pool.toShared gs
  outside : ∀ (pool : Pool C E S A) gs e, pool.Matches R J Q gs → I pool.toShared gs →
    ok pool (.outside e) → I { pool.toShared with store := apply e pool.store } gs

theorem Preserved.turn (hp : Preserved code R J Q init ok I) {pool : Pool C E S A}
    {t : Turn C E} (hok : ok pool t) {gs : Multiset (Local C S L)} (hm : pool.Matches R J Q gs)
    (hI : I pool.toShared gs) :
    ∃ gs', (pool.turn code t).Matches R J Q gs' ∧ I (pool.turn code t).toShared gs' := by
  cases t with
  | start c =>
      refine ⟨_, ?_, hp.start pool gs c hm hI hok⟩
      have hnew : (⟨c, pool.store, code c⟩ : Thread C E S A).Matches R J Q
          ⟨c, pool.store, init c⟩ := ⟨rfl, rfl, hp.code pool c hok⟩
      simp only [Pool.Matches, Pool.turn, ← Multiset.coe_add, Multiset.coe_singleton,
        add_comm _ {_}, Multiset.singleton_add]
      exact .cons hnew hm
  | move i =>
      simp only [Pool.turn]
      rcases ht : pool.threads[i]? with _ | t
      · exact ⟨gs, hm, hI⟩
      · obtain ⟨g, rest, rfl, ⟨hcall, hborn, hfollows⟩, hrest⟩ := hm.split ht
        simp only [Pool.moveThread]
        rcases hprog : t.rest with a | ⟨e, next⟩
        · rw [hprog] at hfollows
          refine ⟨rest, hrest, ?_⟩
          rw [hcall, hborn]
          exact hp.done pool g rest a hI hfollows
        · rw [hprog] at hfollows
          obtain ⟨l, hmove, hnext⟩ := hfollows pool.store (hp.store _ _ hI)
          have hnext? : pool.next? i = some e := by simp [Pool.next?, ht, hprog]
          refine ⟨_, ?_, hp.move pool g rest i e l hI hok hnext? hrest hmove⟩
          have hi := (List.getElem?_eq_some_iff.mp ht).1
          have hset : (pool.threads.set i { t with rest := next pool.store } :
              Multiset (Thread C E S A)) =
                { t with rest := next pool.store } ::ₘ
                  (pool.threads.eraseIdx i : Multiset (Thread C E S A)) :=
            Multiset.coe_eq_coe.mpr (List.set_perm_cons_eraseIdx hi _)
          simp only [Pool.Matches, hset]
          exact .cons ⟨hcall, hborn, hnext⟩ hrest
  | fail i =>
      simp only [Pool.turn]
      rcases ht : pool.threads[i]? with _ | t
      · rw [List.eraseIdx_of_length_le (List.getElem?_eq_none_iff.mp ht)]
        exact ⟨gs, hm, hI⟩
      · obtain ⟨g, rest, rfl, hg, hrest⟩ := hm.split ht
        exact ⟨rest, hrest, hp.fail pool t g rest i hI hok ht hg⟩
  | outside e => exact ⟨gs, hm, hp.outside pool gs e hm hI hok⟩

/-- The invariant rule: what every allowed turn keeps holds at the end of every run. -/
theorem Preserved.run (hp : Preserved code R J Q init ok I) {pool pool' : Pool C E S A}
    (run : Pool.Run code ok pool pool')
    (h : ∃ gs, pool.Matches R J Q gs ∧ I pool.toShared gs) :
    ∃ gs, pool'.Matches R J Q gs ∧ I pool'.toShared gs := by
  induction run with
  | refl => exact h
  | tail _ step ih =>
      obtain ⟨gs, hm, hI⟩ := ih
      cases step with
      | turn t hok => exact hp.turn hok hm hI

end Invariants

end Dalston.Foundation
