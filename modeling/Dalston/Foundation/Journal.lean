import Dalston.Foundation.Pool

/-!
# Journals of calls

A recorded program returns its journal next to its result: the effects it has
performed, each with the store it was performed in. A pool of recorded programs
runs as the pool of the programs themselves; only its returns say more.

## Implementation notes

A journal grows while its program runs, so it holds the stores the call went
through, however the other calls were interleaved with it.
-/

namespace Dalston.Foundation

/-- What a call has performed, the earliest effect first. -/
abbrev Journal (E S : Type) := List (S × E)

namespace Program

variable {E S A B : Type}

/-- What is left of the program when a store answers its next effect. -/
def answered : Program E S A → S → Program E S A
  | done a, _ => done a
  | step _ next, s => next s

def map (f : A → B) : Program E S A → Program E S B
  | done a => done (f a)
  | step e next => step e fun s => (next s).map f

/-- The program that also writes down what it performs. -/
def recorded : Program E S A → Journal E S → Program E S (A × Journal E S)
  | done a, journal => done (a, journal)
  | step e next, journal => step e fun s => (next s).recorded (journal ++ [(s, e)])

@[simp] theorem map_recorded (p : Program E S A) (journal : Journal E S) :
    (p.recorded journal).map Prod.fst = p := by
  induction p generalizing journal with
  | done a => rfl
  | step e next ih =>
      simp only [recorded, map]
      congr 1
      funext s
      exact ih s _

/-- The program can perform the journal and return the result; `F` holds of what is left of it
and of the store at every effect. -/
def Performs (F : Program E S A → S → Prop) : Program E S A → Journal E S → A → Prop
  | done a, journal, b => journal = [] ∧ b = a
  | step _ _, [], _ => False
  | step e next, (s, e') :: journal, b =>
      e' = e ∧ F (step e next) s ∧ (next s).Performs F journal b

variable {F : Program E S A → S → Prop}

@[simp] theorem performs_done {a b : A} {journal : Journal E S} :
    (done a).Performs F journal b ↔ journal = [] ∧ b = a := Iff.rfl

theorem performs_step {e : E} {next : S → Program E S A} {journal : Journal E S} {b : A} :
    (step e next).Performs F journal b ↔
      ∃ s rest, journal = (s, e) :: rest ∧ F (step e next) s ∧ (next s).Performs F rest b := by
  constructor
  · intro h
    cases journal with
    | nil => exact h.elim
    | cons entry rest =>
        obtain ⟨s, e'⟩ := entry
        obtain ⟨rfl, hF, hrest⟩ := h
        exact ⟨s, rest, rfl, hF, hrest⟩
  · rintro ⟨s, rest, rfl, hF, hrest⟩
    exact ⟨rfl, hF, hrest⟩

end Program

variable {C E S A B : Type}

def Thread.map (f : A → B) (t : Thread C E S A) : Thread C E S B :=
  ⟨t.call, t.born, t.rest.map f⟩

def Return.map (f : A → B) (x : Return C S A) : Return C S B := ⟨x.call, x.born, f x.result⟩

/-- The pool with another view of its results. -/
def Pool.map (f : A → B) (pool : Pool C E S A) : Pool C E S B where
  store := pool.store
  returned := pool.returned.map (Return.map f)
  history := pool.history
  threads := pool.threads.map (Thread.map f)

section Runs

variable [Interprets E S] {code : C → Program E S A} {ok : Pool C E S A → Turn C E → Prop}

theorem Pool.map_moveThread (f : A → B) (pool : Pool C E S A) (i : Nat) (t : Thread C E S A) :
    (pool.moveThread i t).map f = (pool.map f).moveThread i (t.map f) := by
  obtain ⟨call, born, rest⟩ := t
  cases rest with
  | done a => simp [Pool.moveThread, Pool.map, Thread.map, Program.map, Return.map, List.eraseIdx_map]
  | step e next =>
      simp [Pool.moveThread, Pool.map, Thread.map, Program.map, Shared.perform, List.map_set]

/-- A pool runs the same whatever is seen of its results. -/
theorem Pool.map_turn (f : A → B) (pool : Pool C E S A) (t : Turn C E) :
    (pool.turn code t).map f = (pool.map f).turn (fun c => (code c).map f) t := by
  cases t with
  | start c => simp [Pool.turn, Pool.map, Thread.map]
  | move i =>
      have hget : (pool.map f).threads[i]? = (pool.threads[i]?).map (Thread.map f) :=
        List.getElem?_map
      simp only [Pool.turn, hget]
      cases pool.threads[i]? with
      | none => rfl
      | some t => exact Pool.map_moveThread f pool i t
  | fail i => simp [Pool.turn, Pool.map, List.eraseIdx_map]
  | outside e => rfl

/-- A pool whose returns carry their journals. -/
abbrev RecordedPool (C E S A : Type) := Pool C E S (A × Journal E S)

/-- The pool without its journals. -/
abbrev Pool.plain (pool : RecordedPool C E S A) : Pool C E S A := pool.map Prod.fst

def recordedCode (code : C → Program E S A) (c : C) : Program E S (A × Journal E S) :=
  (code c).recorded []

/-- A run of a recorded pool; its turns are allowed as those of the plain pool are. -/
abbrev RecordedRun (code : C → Program E S A) (ok : Pool C E S A → Turn C E → Prop) :
    RecordedPool C E S A → RecordedPool C E S A → Prop :=
  Pool.Run (recordedCode code) fun pool t => ok pool.plain t

theorem plain_turn (pool : RecordedPool C E S A) (t : Turn C E) :
    (pool.turn (recordedCode code) t).plain = pool.plain.turn code t := by
  simp [Pool.map_turn, recordedCode]

/-- A recorded run is a run. -/
theorem RecordedRun.plain {pool pool' : RecordedPool C E S A}
    (run : RecordedRun code ok pool pool') : Pool.Run code ok pool.plain pool'.plain := by
  induction run with
  | refl => exact Relation.ReflTransGen.refl
  | tail _ step ih =>
      obtain ⟨t, ht⟩ := step
      rw [plain_turn]
      exact ih.tail (.turn t ht)

/-- In some run the call moves on in the store, with the program left to it. -/
def MovesOn (code : C → Program E S A) (ok : Pool C E S A → Turn C E → Prop)
    (start : Pool C E S A) (c : C) (p : Program E S A) (s : S) : Prop :=
  ∃ (pool : Pool C E S A) (i : Nat) (t : Thread C E S A),
    Pool.Run code ok start pool ∧ ok pool (.move i) ∧ pool.threads[i]? = some t ∧
      t.call = c ∧ t.rest = p ∧ pool.store = s

/-- The calls under way have come where their journals say, and those that have returned
have performed theirs. -/
structure Journaled (code : C → Program E S A) (F : C → Program E S A → S → Prop)
    (pool : RecordedPool C E S A) : Prop where
  underWay : ∀ t ∈ pool.threads, ∃ (p : Program E S A) (journal : Journal E S),
    t.rest = p.recorded journal ∧ ∀ rest a, p.Performs (F t.call) rest a →
      (code t.call).Performs (F t.call) (journal ++ rest) a
  returned : ∀ x ∈ pool.returned, (code x.call).Performs (F x.call) x.result.2 x.result.1

theorem Journaled.turn {F : C → Program E S A → S → Prop} {pool : RecordedPool C E S A}
    (h : Journaled code F pool) {t : Turn C E}
    (hF : ∀ i t', t = .move i → pool.plain.threads[i]? = some t' → F t'.call t'.rest pool.store) :
    Journaled code F (pool.turn (recordedCode code) t) := by
  cases t with
  | start c =>
      refine ⟨?_, h.returned⟩
      intro t ht
      rcases List.mem_append.mp ht with ht | ht
      · exact h.underWay t ht
      · obtain rfl := List.mem_singleton.mp ht
        exact ⟨code c, [], rfl, fun rest a hrest => hrest⟩
  | move i =>
      simp only [Pool.turn]
      rcases ht : pool.threads[i]? with _ | t
      · exact h
      · obtain ⟨p, journal, hrest, hgoes⟩ := h.underWay t (List.mem_of_getElem? ht)
        have hplain : pool.plain.threads[i]? = some (t.map Prod.fst) := by
          simp [Pool.map, ht]
        have hat := hF i _ rfl hplain
        simp only [Thread.map, hrest, Program.map_recorded] at hat
        simp only [Pool.moveThread, hrest]
        cases p with
        | done a =>
            refine ⟨fun t' ht' => h.underWay t' (List.mem_of_mem_eraseIdx ht'), ?_⟩
            intro x hx
            rcases List.mem_cons.mp hx with rfl | hx
            · simpa using hgoes [] a ⟨rfl, rfl⟩
            · exact h.returned x hx
        | step e next =>
            refine ⟨?_, h.returned⟩
            intro t' ht'
            rcases List.mem_or_eq_of_mem_set ht' with ht' | rfl
            · exact h.underWay t' ht'
            · refine ⟨next pool.store, journal ++ [(pool.store, e)], rfl, ?_⟩
              intro rest a hnext
              rw [List.append_assoc]
              exact hgoes _ a (Program.performs_step.mpr ⟨_, _, rfl, hat, hnext⟩)
  | fail i => exact ⟨fun t ht => h.underWay t (List.mem_of_mem_eraseIdx ht), h.returned⟩
  | outside e => exact ⟨h.underWay, h.returned⟩

/-- Every call that returns has performed its journal, and each of its moves was allowed in a
pool that a run comes to. -/
theorem RecordedRun.performs {s : S} {pool : RecordedPool C E S A}
    (run : RecordedRun code ok (Pool.idle s) pool) :
    ∀ x ∈ pool.returned, (code x.call).Performs (MovesOn code ok (Pool.idle s) x.call)
      x.result.2 x.result.1 := by
  suffices h : Journaled code (MovesOn code ok (Pool.idle s)) pool from h.returned
  induction run with
  | refl => exact ⟨by simp [Pool.idle], by simp [Pool.idle]⟩
  | tail run step ih =>
      obtain ⟨t, ht⟩ := step
      apply ih.turn
      rintro i t' rfl hget
      exact ⟨_, i, t', RecordedRun.plain run, ht, hget, rfl, rfl, rfl⟩

end Runs

end Dalston.Foundation
