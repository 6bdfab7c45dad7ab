import Dalston.Foundation.Session
import Dalston.Orchestrator.Deliveries
import Dalston.Orchestrator.Writers

/-!
# Jobs cancelled while they are started

The handler of `job.created` reads the status of the job, and much later commits the tasks
together with the running status; then it makes the root tasks ready and queues them. The
gateway's cancellation reads the job and its tasks, and then commits its own statuses. Neither
commit looks at what the other has committed since. Where no call begins while one of the other
kind may still write, no task is started behind a cancellation.

## Implementation notes

Any number of handlers and cancellations take turns effect by effect, and each may die at any
time. The effects of the engines and of other handlers that neither write the job's row nor make
a task ready may happen at any time.
-/

namespace Dalston.Orchestrator.CancelledStarts

open Foundation Model

/-- A call that starts or cancels the job. -/
inductive Party
  | jobCreated (env : Env)
  | cancel (now : Time)

def Party.code : Party → Action Unit
  | jobCreated env => do
      let _ ← handleJobCreated env
      return ()
  | cancel now => cancelJob now

/-- How far a call has come: the world it has read, and whether a cancellation is committed. -/
inductive Progress
  | fresh (c : Party)
  | read (c : Party) (w : World)
  | committed

def learn : Progress → Effect → World → Progress
  | .fresh c, _, s => .read c s
  | .read _ _, .requestCancel .., _ => .committed
  | k, _, _ => k

abbrev StartPool := Pool Party (Noted Effect Progress) World (Unit × Progress)

abbrev StartTurn := Turn Party (Noted Effect Progress)

abbrev StartThread := Thread Party (Noted Effect Progress) World (Unit × Progress)

abbrev sessions (c : Party) : Program (Noted Effect Progress) World (Unit × Progress) :=
  c.code.noting learn (.fresh c)

/-- What the call under way knows. -/
def known (t : StartThread) : Progress :=
  match t.rest with
  | .done r => r.2
  | .step n _ => n.known

/-- The handler builds the tasks of a job with this status. -/
def buildable : JobStatus → Bool
  | .pending | .completed | .failed => true
  | .running | .cancelling | .cancelled => false

/-- A handler that has read a job that it builds the tasks of. -/
def Building : Progress → Prop
  | .read (.jobCreated _) w => buildable w.job.status
  | _ => False

/-- A cancellation that has read a job that it will cancel. -/
def Cancelling : Progress → Prop
  | .read (.cancel _) w => cancellable w.job.status
  | _ => False

instance : DecidablePred Building
  | .read (.jobCreated _) w => inferInstanceAs (Decidable (buildable w.job.status = true))
  | .read (.cancel _) _ | .fresh _ | .committed => isFalse id

instance : DecidablePred Cancelling
  | .read (.cancel _) w => inferInstanceAs (Decidable (cancellable w.job.status = true))
  | .read (.jobCreated _) _ | .fresh _ | .committed => isFalse id

/-- A call that is about to read does not meet one of the other kind that may still write. -/
def Clear : Progress → Progress → Prop
  | .fresh (.jobCreated _), k => ¬ Cancelling k
  | .fresh (.cancel _), k => ¬ Building k
  | .read .., _ | .committed, _ => True

instance : ∀ k, DecidablePred (Clear k)
  | .fresh (.jobCreated _), k => inferInstanceAs (Decidable (¬ Cancelling k))
  | .fresh (.cancel _), k => inferInstanceAs (Decidable (¬ Building k))
  | .read .., _ | .committed, _ => isTrue trivial

/-- A commit of the gateway's cancellation. -/
def Cancels : Effect → Prop
  | .requestCancel .. => True
  | _ => False

/-- The effect starts the job, makes a task ready, or queues one. -/
def Launches : Effect → Prop
  | .saveTasks .. | .markReady .. | .addTask .. | .addTaskOnce .. => True
  | _ => False

/-- What others do beside the two kinds of calls. -/
def Beside : Effect → Prop
  | .requestCancel .. | .saveTasks .. | .saveEnrichmentTasks _ | .markReady .. | .claimReady ..
  | .retryTask .. | .addTask .. | .addTaskOnce .. | .failJobOnBuild .. | .failJobOnQueue ..
  | .failJobOnTask .. | .finaliseJob .. => False
  | _ => True

instance : DecidablePred Beside := fun e => by
  cases e <;> first | exact isTrue trivial | exact isFalse id

/-- A call makes its first read while no call of the other kind may still write. -/
def Apart (pool : StartPool) : StartTurn → Prop
  | .move i => ∀ n ∈ pool.next? i, ∀ u ∈ pool.threads, Clear n.known (known u)
  | .outside n => Beside n.effect
  | .start _ | .fail _ => True

instance (pool : StartPool) : ∀ turn, Decidable (Apart pool turn)
  | .move i =>
      inferInstanceAs (Decidable (∀ n ∈ pool.next? i, ∀ u ∈ pool.threads, Clear n.known (known u)))
  | .outside n => inferInstanceAs (Decidable (Beside n.effect))
  | .start _ | .fail _ => isTrue trivial

/-- Calls take their turns in any order. -/
def AnyOrder (_ : StartPool) : StartTurn → Prop
  | .outside n => Beside n.effect
  | .start _ | .move _ | .fail _ => True

instance (pool : StartPool) : ∀ turn, Decidable (AnyOrder pool turn)
  | .outside n => inferInstanceAs (Decidable (Beside n.effect))
  | .start _ | .move _ | .fail _ => isTrue trivial

/-- The job is cancelled or being cancelled, and no task of it waits to be started. -/
structure Closed (s : World) : Prop where
  status : s.job.status = .cancelled ∨ s.job.status = .cancelling
  rows : ∀ t ∈ s.tasks.rows, t.status ≠ .pending ∧ t.status ≠ .ready

/-- A committed cancellation is not overwritten: the job stays closed, and no later effect of a
handler starts it, makes a task ready, or queues one. -/
structure Observed (pool : StartPool) : Prop where
  closed : (∃ n ∈ pool.history, Cancels n.effect) → Closed pool.store
  quiet : pool.history.Pairwise fun later earlier =>
    Cancels earlier.effect → ¬ Launches later.effect

section Protocols

/-- What a cancellation does once it has been committed. -/
def Announces : Effect → Prop
  | .publish _ | .setDecremented | .decrConcurrentJobs | .resetConcurrentJobs => True
  | _ => False

/-- The moves of the two kinds of calls. -/
def Moves : Progress → Effect → Prop
  | .fresh _, e => e = .read
  | .read (.jobCreated _) w, e => buildable w.job.status ∧ ¬ Cancels e
  | .read (.cancel now) w, e =>
      cancellable w.job.status ∧
        e = .requestCancel (cancelStatus w.tasks.rows) (idsIn [.pending, .ready] w.tasks.rows) now
  | .committed, e => Announces e

theorem learn_read_of_not_cancels {c : Party} {w : World} {e : Effect} (h : ¬ Cancels e)
    (s : World) : learn (.read c w) e s = .read c w := by
  cases e <;> first | rfl | exact absurd trivial h

theorem not_cancels_of_quiet {e : Effect} (h : Quiet e) : ¬ Cancels e := by
  have hunassuming := h.1
  cases e <;> first | exact not_false | exact hunassuming.elim

variable {env : Env}

theorem only_queueRoots (audio : Option AudioMetadata) (tasks : List Task) :
    (queueRoots env audio tasks).Only fun e => ¬ Cancels e := by
  induction tasks with
  | nil => exact Program.only_done _
  | cons task rest ih =>
      refine Program.only_bind (only_exec not_false) fun _ => ?_
      refine Program.only_bind
        (fun e he => not_cancels_of_quiet (only_queueTask _ _ _ _ _ e he)) fun r => ?_
      split
      · exact ih
      · exact Program.only_bind
          (fun e he => not_cancels_of_quiet (only_failJobOnQueue _ _ e he)) fun _ =>
            Program.only_done _
      · exact Program.only_done _

theorem only_buildJob (job : JobModel) : (buildJob env job).Only fun e => ¬ Cancels e := by
  refine Program.only_bind (fun e he => not_cancels_of_quiet (only_selectTasks e he)) fun tasks => ?_
  split
  · exact Program.only_done _
  · split
    · exact Program.only_bind
        (fun e he => not_cancels_of_quiet (only_failJobOnBuild _ _ e he)) fun _ =>
          Program.only_done _
    · exact Program.only_done _
    · refine Program.only_perform_bind not_false fun before => ?_
      split
      · exact only_queueRoots _ _
      · split
        · exact Program.only_done _
        · exact Program.only_done _

theorem heeds_jobCreated :
    (Party.jobCreated env).code.Heeds learn Moves (fun _ _ => True) (.fresh (.jobCreated env)) := by
  refine Program.heeds_bind.mpr ⟨rfl, fun s => ?_⟩
  have hbuild : buildable s.job.status → (buildJob env s.job).Heeds learn Moves
      (fun _ _ => True) (.read (.jobCreated env) s) := by
    intro hstatus
    refine Program.heeds_of_only (only_buildJob s.job) (R := fun k => k = .read (.jobCreated env) s) rfl ?_ ?_
      fun _ _ _ => trivial
    · rintro k e rfl he
      exact ⟨hstatus, he⟩
    · rintro k e s' rfl he
      exact learn_read_of_not_cancels he s'
  simp only [learn, Program.bind]
  cases hstatus : s.job.status with
  | pending | completed | failed => exact hbuild (by rw [hstatus]; rfl)
  | running | cancelling | cancelled => trivial

theorem only_announces : decrementConcurrentJobs.Only Announces := by
  refine Program.only_perform_bind trivial fun before => ?_
  split
  · exact Program.only_done _
  · refine Program.only_perform_bind trivial fun before => ?_
    split
    · exact only_exec trivial
    · exact Program.only_done _

theorem heeds_cancel (now : Time) :
    (Party.cancel now).code.Heeds learn Moves (fun _ _ => True) (.fresh (.cancel now)) := by
  refine ⟨rfl, fun s => ?_⟩
  simp only [learn, Program.bind]
  split
  · rename_i hcancellable
    refine ⟨⟨hcancellable, rfl⟩, fun s' => ?_⟩
    refine Program.heeds_of_only (H := Announces) ?_ (R := fun k => k = .committed) rfl ?_ ?_
      fun _ _ _ => trivial
    · refine Program.only_perform_bind trivial fun _ => ?_
      split
      · exact only_announces
      · exact Program.only_done _
    · rintro k e rfl he
      exact he
    · rintro k e s' rfl -
      rfl
  · trivial

theorem heeds_code (c : Party) : c.code.Heeds learn Moves (fun _ _ => True) (.fresh c) := by
  cases c with
  | jobCreated env => exact heeds_jobCreated
  | cancel now => exact heeds_cancel now

end Protocols

section Stores

variable {e : Effect} {w : World}

/-- The row waits to be started. -/
def Waits (t : TaskModel) : Prop := t.status = .pending ∨ t.status = .ready

theorem mem_idsIn_of_waits {rows : List TaskModel} {t : TaskModel} (ht : t ∈ rows) (h : Waits t) :
    t.id ∈ idsIn [.pending, .ready] rows := by
  refine List.mem_map_of_mem (List.mem_filter.mpr ⟨ht, ?_⟩)
  rcases h with h | h <;> simp [h]

theorem Closed.not_waits (h : Closed w) : ∀ t ∈ w.tasks.rows, ¬ Waits t := by
  intro t ht hwaits
  rcases hwaits with hpending | hready
  · exact (h.rows t ht).1 hpending
  · exact (h.rows t ht).2 hready

theorem closed_of_not_waits (hstatus : w.job.status = .cancelled ∨ w.job.status = .cancelling)
    (h : ∀ t ∈ w.tasks.rows, ¬ Waits t) : Closed w :=
  ⟨hstatus, fun t ht => ⟨fun hpending => h t ht (Or.inl hpending),
    fun hready => h t ht (Or.inr hready)⟩⟩

/-- An effect of the others lets no row wait that did not. -/
theorem waited_of_beside (h : Beside e) {t : TaskModel} (ht : t ∈ (e.apply w).tasks.rows)
    (hwaits : Waits t) : ∃ u ∈ w.tasks.rows, u.id = t.id ∧ Waits u := by
  have hnone : e.newRows w = [] := by
    cases e <;> first | rfl | exact h.elim
  rw [e.rows_apply, hnone, List.append_nil] at ht
  obtain ⟨u, hu, rfl⟩ := List.mem_map.mp ht
  refine ⟨u, hu, (TaskModel.id_of_declared (e.declared_updateRow u)).symm, ?_⟩
  cases e <;> first | exact hwaits | exact h.elim | skip
  all_goals
    simp only [Effect.updateRow] at hwaits
    split_ifs at hwaits
    all_goals first | exact hwaits | simp [Waits] at hwaits

theorem closed_of_beside (h : Beside e) (hclosed : Closed w) : Closed (e.apply w) := by
  refine closed_of_not_waits ?_ fun t ht hwaits => ?_
  · cases e <;> first | exact hclosed.status | exact h.elim | exact Or.inl rfl
  · obtain ⟨u, hu, -, huwaits⟩ := waited_of_beside h ht hwaits
    exact hclosed.not_waits u hu huwaits

theorem beside_of_announces (h : Announces e) : Beside e := by
  cases e <;> trivial

theorem not_cancels_of_beside (h : Beside e) : ¬ Cancels e := by
  cases e <;> first | exact not_false | exact h.elim

theorem not_launches_of_beside (h : Beside e) : ¬ Launches e := by
  cases e <;> first | exact not_false | exact h.elim

/-- The rows that wait after a cancellation are those that it has not listed. -/
theorem waited_of_requestCancel {status : JobStatus} {ids : List Uuid} {now : Time} {t : TaskModel}
    (ht : t ∈ ((Effect.requestCancel status ids now).apply w).tasks.rows) (hwaits : Waits t) :
    t ∈ w.tasks.rows ∧ t.id ∉ ids := by
  obtain ⟨u, hu, rfl⟩ := List.mem_map.mp ht
  simp only [Effect.updateRow] at hwaits ⊢
  split_ifs at hwaits ⊢ with hlisted
  · simp [Waits] at hwaits
  · exact ⟨hu, hlisted⟩

/-- A cancellation that lists every waiting row closes the job. -/
theorem closed_requestCancel {rows : List TaskModel} {now : Time} {ids : List Uuid}
    (h : ∀ t ∈ w.tasks.rows, Waits t → t.id ∈ ids) :
    Closed ((Effect.requestCancel (cancelStatus rows) ids now).apply w) := by
  refine closed_of_not_waits ?_ fun t ht hwaits => ?_
  · change cancelStatus rows = .cancelled ∨ cancelStatus rows = .cancelling
    unfold cancelStatus
    split_ifs <;> simp
  · obtain ⟨hold, hunlisted⟩ := waited_of_requestCancel ht hwaits
    exact hunlisted (h t hold hwaits)

end Stores

section Runs

/-- No cancellation has been committed. -/
def Uncancelled (history : List (Noted Effect Progress)) : Prop :=
  ∀ n ∈ history, ¬ Cancels n.effect

/-- What every turn keeps of the pool and of what its calls know. -/
structure Kept (shared : Shared Party (Noted Effect Progress) World (Unit × Progress))
    (gs : Multiset (Local Party World Progress)) : Prop where
  closed : ¬ Uncancelled shared.history → Closed shared.store
  quiet : shared.history.Pairwise fun later earlier =>
    Cancels earlier.effect → ¬ Launches later.effect
  apart : ∀ g ∈ gs, Building g.state → ∀ g' ∈ gs, ¬ Cancelling g'.state
  building : ∀ g ∈ gs, Building g.state → Uncancelled shared.history
  listed : ∀ g ∈ gs, Cancelling g.state → ∀ c w, g.state = .read c w →
    ∀ t ∈ shared.store.tasks.rows, Waits t → t.id ∈ idsIn [.pending, .ready] w.tasks.rows

variable {shared : Shared Party (Noted Effect Progress) World (Unit × Progress)}
  {gs : Multiset (Local Party World Progress)} {n : Noted Effect Progress}

/-- Calls that end, and calls that do not write, change nothing. -/
theorem Kept.of_writing {gs' : Multiset (Local Party World Progress)} (h : Kept shared gs)
    (hsub : ∀ g ∈ gs', Building g.state ∨ Cancelling g.state → g ∈ gs) :
    Kept shared gs' where
  closed := h.closed
  quiet := h.quiet
  apart g hg hbuilding g' hg' hcancelling :=
    h.apart g (hsub g hg (Or.inl hbuilding)) hbuilding g' (hsub g' hg' (Or.inr hcancelling))
      hcancelling
  building g hg hbuilding := h.building g (hsub g hg (Or.inl hbuilding)) hbuilding
  listed g hg hcancelling := h.listed g (hsub g hg (Or.inr hcancelling)) hcancelling

theorem Kept.outside {e : Effect} (h : Kept shared gs) (he : Beside e) :
    Kept { shared with store := e.apply shared.store } gs where
  closed hcancelled := closed_of_beside he (h.closed hcancelled)
  quiet := h.quiet
  apart := h.apart
  building := h.building
  listed g hg hcancelling c w hread t ht hwaits := by
    obtain ⟨u, hu, hid, huwaits⟩ := waited_of_beside he ht hwaits
    exact hid ▸ h.listed g hg hcancelling c w hread u hu huwaits

theorem uncancelled_cons (hn : ¬ Cancels n.effect) :
    Uncancelled (n :: shared.history) ↔ Uncancelled shared.history := by
  simp [Uncancelled, hn]

theorem Kept.beside (h : Kept shared gs) (he : Beside n.effect) : Kept (shared.perform n) gs := by
  have hstep := h.outside he
  have hn : Uncancelled (n :: shared.history) ↔ Uncancelled shared.history :=
    uncancelled_cons (not_cancels_of_beside he)
  exact {
    closed := fun hcancelled => hstep.closed (mt hn.mpr hcancelled)
    quiet := List.Pairwise.cons (fun _ _ _ => not_launches_of_beside he) h.quiet
    apart := h.apart
    building := fun g hg hbuilding => hn.mpr (h.building g hg hbuilding)
    listed := hstep.listed }

/-- While a handler writes, nothing has been cancelled and no cancellation is about to be. -/
theorem Kept.build {g : Local Party World Progress} (h : Kept shared gs) (hg : g ∈ gs)
    (hbuilding : Building g.state) (he : ¬ Cancels n.effect) :
    Kept (shared.perform n) gs := by
  have hnone := h.building g hg hbuilding
  have hnone' := (uncancelled_cons he).mpr hnone
  exact {
    closed := fun hcancelled => absurd hnone' hcancelled
    quiet := List.Pairwise.cons (fun m hm hcancels => absurd hcancels (hnone m hm)) h.quiet
    apart := h.apart
    building := fun _ _ _ => hnone'
    listed := fun g' hg' hcancelling =>
      absurd hcancelling (h.apart g hg hbuilding g' hg') }

/-- A cancellation that is committed closes the job. -/
theorem Kept.cancel {g : Local Party World Progress} {c : Party} {w : World}
    {now : Time} (h : Kept shared (g ::ₘ gs)) (hcancelling : Cancelling g.state)
    (hread : g.state = .read c w)
    (he : n.effect = .requestCancel (cancelStatus w.tasks.rows)
      (idsIn [.pending, .ready] w.tasks.rows) now) :
    Kept (shared.perform n) gs := by
  have hg := Multiset.mem_cons_self g gs
  have hnone : ∀ g' ∈ gs, ¬ Building g'.state := fun g' hg' hbuilding =>
    h.apart g' (Multiset.mem_cons_of_mem hg') hbuilding g hg hcancelling
  have hstore : (shared.perform n).store = (Effect.requestCancel (cancelStatus w.tasks.rows)
      (idsIn [.pending, .ready] w.tasks.rows) now).apply shared.store := by
    simp [Shared.perform, he]
  refine ⟨fun _ => ?_, ?_, fun g' hg' hbuilding => ?_, fun g' hg' hbuilding => ?_, ?_⟩
  · rw [hstore]
    exact closed_requestCancel (h.listed g hg hcancelling c w hread)
  · refine List.Pairwise.cons (fun m _ _ hlaunches => ?_) h.quiet
    rw [he] at hlaunches
    exact hlaunches
  · exact absurd hbuilding (hnone g' hg')
  · exact absurd hbuilding (hnone g' hg')
  · intro g' hg' hcancelling' c' w' hread' t ht hwaits
    rw [hstore] at ht
    obtain ⟨hold, -⟩ := waited_of_requestCancel ht hwaits
    exact h.listed g' (Multiset.mem_cons_of_mem hg') hcancelling' c' w' hread' t hold hwaits

/-- A call makes its first read while no call of the other kind may still write. -/
theorem Kept.read {g : Local Party World Progress} {c : Party} (h : Kept shared (g ::ₘ gs))
    (hclear : ∀ g' ∈ gs, Clear (.fresh c) g'.state) :
    Kept shared ({ g with state := .read c shared.store } ::ₘ gs) := by
  have hrest : Kept shared gs := h.of_writing fun g' hg' _ => Multiset.mem_cons_of_mem hg'
  cases c with
  | jobCreated env =>
      refine ⟨hrest.closed, hrest.quiet, ?_, ?_, ?_⟩
      · simp only [Multiset.mem_cons, forall_eq_or_imp]
        refine ⟨fun _ => ⟨not_false, hclear⟩, fun g' hg' hbuilding => ⟨not_false, ?_⟩⟩
        exact hrest.apart g' hg' hbuilding
      · simp only [Multiset.mem_cons, forall_eq_or_imp]
        refine ⟨fun hbuilding => ?_, hrest.building⟩
        by_contra hcancelled
        have hbuildable : buildable shared.store.job.status = true := hbuilding
        rcases (hrest.closed hcancelled).status with hstatus | hstatus
        · rw [hstatus] at hbuildable
          cases hbuildable
        · rw [hstatus] at hbuildable
          cases hbuildable
      · simp only [Multiset.mem_cons, forall_eq_or_imp]
        exact ⟨fun hcancelling => hcancelling.elim, hrest.listed⟩
  | cancel now =>
      refine ⟨hrest.closed, hrest.quiet, ?_, ?_, ?_⟩
      · simp only [Multiset.mem_cons, forall_eq_or_imp]
        refine ⟨fun hbuilding => hbuilding.elim, fun g' hg' hbuilding => ?_⟩
        exact absurd hbuilding (hclear g' hg')
      · simp only [Multiset.mem_cons, forall_eq_or_imp]
        exact ⟨fun hbuilding => hbuilding.elim, hrest.building⟩
      · simp only [Multiset.mem_cons, forall_eq_or_imp]
        refine ⟨?_, hrest.listed⟩
        rintro - c w hread t ht hwaits
        obtain ⟨-, rfl⟩ := Progress.read.inj hread
        exact mem_idsIn_of_waits ht hwaits

theorem known_eq {t : StartThread} {g : Local Party World Progress}
    (h : t.Matches (fun _ => Notes learn Moves) (fun _ => True)
      (fun _ (r : Unit × Progress) k => r.2 = k ∧ True) g) : known t = g.state := by
  have hfollows := h.follows
  unfold known
  cases hrest : t.rest with
  | done r =>
      rw [hrest] at hfollows
      exact hfollows.1
  | step n next =>
      rw [hrest] at hfollows
      obtain ⟨_, ⟨hknown, _⟩, _⟩ := hfollows t.born trivial
      exact hknown

/-- What a call does by what it knows keeps the invariant. -/
theorem Kept.move {g : Local Party World Progress} (h : Kept shared (g ::ₘ gs))
    (hclear : ∀ g' ∈ gs, Clear g.state g'.state)
    (hmove : Moves g.state n.effect) :
    Kept (shared.perform n)
      ({ g with state := learn g.state n.effect shared.store } ::ₘ gs) := by
  have hg := Multiset.mem_cons_self g gs
  cases hstate : g.state with
  | fresh c =>
      rw [hstate] at hmove
      have hread : n.effect = .read := hmove
      have hbeside : Beside n.effect := by rw [hread]; trivial
      have hstore : (shared.perform n).store = shared.store := by
        simp [Shared.perform, hread, Effect.apply]
      have hstep := (h.beside hbeside).read (hstate ▸ hclear)
      rwa [hstore] at hstep
  | read c w =>
      rw [hstate] at hmove
      cases c with
      | jobCreated env =>
          obtain ⟨hbuildable, hcancels⟩ := hmove
          have hbuilding : Building g.state := by rw [hstate]; exact hbuildable
          rw [learn_read_of_not_cancels hcancels, ← hstate]
          exact h.build hg hbuilding hcancels
      | cancel now =>
          obtain ⟨hcancellable, he⟩ := hmove
          have hcancelling : Cancelling g.state := by rw [hstate]; exact hcancellable
          refine (h.cancel hcancelling hstate he).of_writing fun g' hg' hwriting => ?_
          rcases Multiset.mem_cons.mp hg' with rfl | hg'
          · rw [he] at hwriting
            rcases hwriting with hwriting | hwriting <;> exact hwriting.elim
          · exact hg'
  | committed =>
      rw [hstate] at hmove
      have hbeside : Beside n.effect := beside_of_announces hmove
      refine (h.beside hbeside).of_writing fun g' hg' hwriting => ?_
      rcases Multiset.mem_cons.mp hg' with rfl | hg'
      · rcases hwriting with hwriting | hwriting <;> exact hwriting.elim
      · exact Multiset.mem_cons_of_mem hg'

theorem kept_preserved : Preserved sessions (fun _ => Notes learn Moves) (fun _ => True)
    (fun _ r k => r.2 = k ∧ True) Progress.fresh Apart Kept where
  code _ c _ := Program.follows_noting (heeds_code c)
  store _ _ _ := trivial
  start pool gs c _ h _ := by
    refine h.of_writing fun g hg hwriting => ?_
    rcases Multiset.mem_cons.mp hg with rfl | hg
    · rcases hwriting with hwriting | hwriting <;> exact hwriting.elim
    · exact hg
  move pool g gs i n k h hok hnext hrel hnotes := by
    obtain ⟨hknown, hmove, rfl⟩ := hnotes
    refine h.move (fun g' hg' => ?_) hmove
    obtain ⟨u, hu, hmatch⟩ := Thread.exists_matching hrel hg'
    rw [← known_eq hmatch, ← hknown]
    exact hok n hnext u (List.mem_of_mem_eraseIdx hu)
  done pool g gs a h _ := by
    have hrest : Kept pool.toShared gs := h.of_writing fun g' hg' _ => Multiset.mem_cons_of_mem hg'
    exact ⟨hrest.closed, hrest.quiet, hrest.apart, hrest.building, hrest.listed⟩
  fail pool t g gs i h _ _ _ := h.of_writing fun g' hg' _ => Multiset.mem_cons_of_mem hg'
  outside pool gs n _ h hok := h.outside hok

/-- In every run in which no call begins while one of the other kind may still write, a
committed cancellation is not overwritten. -/
theorem observed_of_apart {s₀ : World} {pool : StartPool}
    (run : Pool.Run sessions Apart (Pool.idle s₀) pool) : Observed pool := by
  have hidle : Kept (Pool.idle s₀ : StartPool).toShared 0 := by
    refine ⟨fun h => absurd (fun n hn => nomatch hn) h, List.Pairwise.nil, ?_, ?_, ?_⟩
    all_goals simp
  obtain ⟨gs, -, hkept⟩ := kept_preserved.run run ⟨0, Pool.matches_idle s₀, hidle⟩
  refine ⟨fun ⟨n, hn, hcancels⟩ => hkept.closed fun hnone => ?_, hkept.quiet⟩
  exact hnone n hn hcancels

/-- The handler of the event that starts the sample job. -/
def starting : Party := .jobCreated (sampleEnv monoDag fun _ => true)

/-- The job is started, and cancelled when its first task has been queued. -/
def startedThenCancelled : List StartTurn :=
  .start starting :: List.replicate 20 (.move 0) ++ .start (.cancel 9) :: List.replicate 8 (.move 0)

theorem cancelled_observed :
    Observed ((Pool.idle (submitted (newJob 0 []))).turns sessions startedThenCancelled) :=
  observed_of_apart (Pool.run_of_allowed (by decide +kernel))

/-- The handler reads the pending job, the cancellation is committed, and the handler commits the
tasks with the running status. -/
def cancelledInBetween : List StartTurn :=
  [.start starting, .move 0, .start (.cancel 9), .move 1, .move 1, .move 0, .move 0]

/-- The handler does not look at the status again before it commits. -/
theorem cancellation_overwritten : ¬ ∀ s₀ pool,
    Pool.Run sessions AnyOrder (Pool.idle s₀) pool → Observed pool := by
  intro h
  have hobserved := h (submitted (newJob 0 []))
    ((Pool.idle (submitted (newJob 0 []))).turns sessions cancelledInBetween)
    (Pool.run_of_allowed (by decide +kernel))
  rcases (hobserved.closed ⟨_, List.mem_of_getElem? (i := 2) rfl, trivial⟩).status with hstatus | hstatus
  · revert hstatus
    decide +kernel
  · revert hstatus
    decide +kernel

end Runs

end Dalston.Orchestrator.CancelledStarts
