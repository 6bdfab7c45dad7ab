import Dalston.Orchestrator.Recovery

/-!
# Failures of optional tasks

The handlers skip an optional task that fails for good, and let the required
tasks decide about the job. Three places write a failed status without a look
at `required`: the scanner and the reconciler, which write the row beside the
handlers, and the engine error of a retry. The event that follows finds the
task failed and fails the job. Where these places meet required tasks only, no
optional task ever fails a job.
-/

namespace Dalston.Orchestrator

open Foundation Model

/-- The retry of an optional task meets an engine error. -/
def RefusesOptional (d : Delivery) (s : World) : Prop :=
  match branch s d.event with
  | .retry task | .requeue task =>
      task.required = false ∧ engineFails d.env (Task.modelValidate task)
  | _ => False

/-- The effect fails an optional task. -/
def FailsOptional (s : World) (e : Effect) : Prop :=
  ∃ t ∈ s.tasks.rows, t.required = false ∧ t.status ≠ .failed ∧
    (e.updateRow t).status = .failed

/-- The effect fails the job on account of an optional task. -/
def BlamesOptional (s : World) : Effect → Prop
  | .failJobOnTask id .. => ∃ t ∈ s.tasks.rows, t.id = id ∧ t.required = false
  | .finaliseJob status error _ =>
      status = .failed ∧ (∀ detail, error ≠ some (.assembly detail)) ∧
        ∀ t ∈ s.tasks.rows, t.status = .failed → t.required = false
  | _ => False

/-- No optional task has failed. -/
def OptionalSpared (s : World) : Prop :=
  ∀ t ∈ s.tasks.rows, t.required = false → t.status ≠ .failed

theorem required_of_declared {t u : TaskModel} (h : t.declared = u.declared) :
    t.required = u.required := by
  simpa [TaskModel.declared] using congrArg TaskModel.required h

/-- New rows are pending, so an effect fails an optional task only by updating its row. -/
theorem OptionalSpared.apply {s : World} {e : Effect} (h : OptionalSpared s)
    (hnew : ∀ t ∈ e.newRows s, t.status ≠ .failed) (he : ¬ FailsOptional s e) :
    OptionalSpared (e.apply s) := by
  intro t ht hopt hfailed
  rw [e.rows_apply] at ht
  rcases List.mem_append.mp ht with ht | ht
  · obtain ⟨u, hu, rfl⟩ := List.mem_map.mp ht
    have hreq : u.required = false :=
      (required_of_declared (e.declared_updateRow u)).symm.trans hopt
    exact he ⟨u, hu, hreq, h u hu hreq, hfailed⟩
  · exact hnew t ht hfailed

theorem newRows_pending {env : Env} {b : Branch} {s s₁ : World} {e : Effect}
    (h : Permits env b s s₁ e) : ∀ t ∈ e.newRows s₁, t.status ≠ .failed := by
  intro t ht
  cases e with
  | saveTasks tasks now =>
      obtain ⟨_, _, dag, _, rfl⟩ := h
      simp only [Effect.newRows] at ht
      split at ht
      · obtain ⟨u, hu, rfl⟩ := List.mem_map.mp ht
        simp [Task.toModel, (dag.pending u hu).1]
      · cases ht
  | saveEnrichmentTasks tasks =>
      obtain ⟨_, _, job, rfl⟩ := h
      simp only [Effect.newRows] at ht
      split at ht
      · obtain ⟨u, hu, rfl⟩ := List.mem_map.mp ht
        rcases List.mem_cons.mp hu with rfl | hu
        · simp [Task.toModel, piiDetectTask, newTask]
        · simp only [redactionTasks] at hu
          split at hu
          · rw [List.mem_singleton.mp hu]
            simp [Task.toModel, audioRedactTask, newTask]
          · cases hu
      · cases ht
  | _ => cases ht

/-- The branch fails the job for required tasks only. -/
def FailsRequired (env : Env) (b : Branch) (s : World) : Prop :=
  ∀ t, FailsJob env b t → t.required = true ∧ t ∈ s.tasks.rows

/-- In a world whose optional tasks are spared, a refused retry is the only exception. -/
theorem failsRequired_of_spared {d : Delivery} {s : World} (hspared : OptionalSpared s)
    (hd : ¬ RefusesOptional d s) : FailsRequired d.env (branch s d.event) s := by
  intro t h
  have hmem : t ∈ s.tasks.rows := by
    rcases h with hb | hb | ⟨hb | hb, _⟩ <;> exact mem_of_branch (by rw [hb]; rfl)
  refine ⟨?_, hmem⟩
  rcases h with hb | hb | ⟨hb, hengine⟩
  · exact required_of_branch.1 hb
  · by_contra hreq
    exact hspared t hmem (by simpa using hreq) (required_of_branch.2 hb)
  · by_contra hreq
    rcases hb with hb | hb <;>
      exact hd (by simpa [RefusesOptional, hb] using ⟨by simpa using hreq, hengine⟩)

section Effects

variable {env : Env} {b : Branch} {s s₁ : World}

theorem not_failsOptional (hb : FailsRequired env b s) (hp : Persists s s₁) {e : Effect}
    (h : Permits env b s s₁ e) : ¬ FailsOptional s₁ e := by
  rintro ⟨u, hu, hopt, hnot, hfailed⟩
  cases e with
  | failTask id error now =>
      obtain ⟨_, t, rfl, hcause⟩ := h
      have hfails : FailsJob env b t := hcause.elim Or.inl fun h => Or.inr (Or.inr h)
      by_cases hid : u.id = t.id
      · have hdecl := hp.declared_eq (hb t hfails).2 hu hid
        rw [required_of_declared hdecl, (hb t hfails).1] at hopt
        cases hopt
      · exact hnot (by simpa [Effect.updateRow, hid] using hfailed)
  | settleOrphans completed failed now => exact h.elim
  | _ =>
      simp only [Effect.updateRow] at hfailed
      first
        | exact hnot hfailed
        | (split at hfailed
           · cases hfailed
           · exact hnot hfailed)

theorem not_blamesOptional (hb : FailsRequired env b s) (hp : Persists s s₁) {e : Effect}
    (h : Permits env b s s₁ e) : ¬ BlamesOptional s₁ e := by
  intro hblames
  cases e with
  | failJobOnTask id error now =>
      obtain ⟨_, _, _, t, hfails, rfl⟩ := h
      obtain ⟨u, hu, hid, hopt⟩ := hblames
      have hdecl := hp.declared_eq (hb t hfails).2 hu hid
      rw [required_of_declared hdecl, (hb t hfails).1] at hopt
      cases hopt
  | finaliseJob status error now =>
      obtain ⟨_, _, _, _, hcause⟩ := h
      obtain ⟨hfailed, hassembly, hoptional⟩ := hblames
      rcases hcause with hcompleted | ⟨_, hany | ⟨detail, hdetail⟩⟩
      · simp [hfailed] at hcompleted
      · obtain ⟨t, ht, hstatus⟩ := List.any_eq_true.mp hany
        simp only [Bool.and_eq_true, decide_eq_true_eq] at hstatus
        have hopt := hoptional t (List.mem_of_mem_filter ht) hstatus.1
        simp [hopt] at hstatus
      · exact hassembly detail hdetail
  | _ => exact hblames

/-- What a program that does what the branch permits performs, and where it can be cut. -/
theorem spared_of_permits {A : Type} {p : Action A} {Q : A → World → Prop}
    (hb : FailsRequired env b s) (hspared : OptionalSpared s)
    (hp : p.wp (Permits env b s) Q s) :
    (∀ s' ∈ p.cuts s, OptionalSpared s') ∧ ∀ x ∈ p.trace s, ¬ BlamesOptional x.1 x.2 := by
  have hkeeps := Program.wp_keeps (I := fun s₁ => Persists s s₁ ∧ OptionalSpared s₁) hp
    ⟨Persists.refl s, hspared⟩ fun s₁ e hI he =>
      ⟨hI.1.apply e, hI.2.apply (newRows_pending he) (not_failsOptional hb hI.1 he)⟩
  constructor
  · intro s' hs'
    refine (Program.wp_cuts (I := fun s₁ => Persists s s₁ ∧ OptionalSpared s₁) ?_ s' hs').2
    exact Program.wp_mono hkeeps (fun _ _ h => h.1) fun _ _ h => h.1
  · intro x hx
    have h := Program.wp_trace hkeeps x hx
    exact not_blamesOptional hb h.1.1 h.2

end Effects

/-- A handler that looks its task up goes on with the row it finds. -/
theorem mem_trace_of_getTask {A : Type} {f : Option TaskModel → Action A} {s : World} {id : Uuid}
    {t : TaskModel} {x : World × Effect} (hget : s.tasks.get? id = some t)
    (hx : x ∈ (f (some t)).trace s) : x ∈ (getTask id >>= f).trace s := by
  rw [Program.trace_bind]
  refine List.mem_append_right _ ?_
  have hrun : (getTask id).run s = (some t, s) := by
    rw [← hget]
    rfl
  rw [hrun]
  exact hx

theorem failedBranch_eq_skip {task t : TaskModel} {error : String}
    (h : failedBranch task error = .skip t) :
    t = task ∧ task.status = .running ∧ retries task error = false ∧ task.required = false := by
  unfold failedBranch at h
  split at h <;> try split at h <;> try split at h
  all_goals cases h
  exact ⟨rfl, by simp_all⟩

theorem timeoutBranch_eq_skip {task t : TaskModel} (h : timeoutBranch task = .skip t) :
    t = task ∧ (task.status = .ready ∨ task.status = .pending) ∧ task.required = false := by
  unfold timeoutBranch at h
  split at h <;> try split at h
  all_goals cases h
  all_goals exact ⟨rfl, by simp_all⟩

/-- An event that ends the attempts of an optional task skips the task. -/
theorem skipTask_mem_trace {d : Delivery} {s : World} {t : TaskModel}
    (hb : branch s d.event = .skip t) :
    ∃ error now, (s, Effect.skipTask t.id error now) ∈ (dispatch d.env d.event).trace s := by
  obtain ⟨env, event⟩ := d
  cases event with
  | taskFailed id error =>
      rcases hget : s.tasks.get? id with _ | task
      · simp [branch, hget] at hb
      obtain ⟨rfl, hrunning, hretry, hopt⟩ :=
        failedBranch_eq_skip (by simpa [branch, hget] using hb)
      refine ⟨error, none, mem_trace_of_getTask hget ?_⟩
      simp only [hrunning, failRunningTask, hretry, hopt]
      exact List.mem_cons_self
  | taskWaitTimeout id error =>
      rcases hget : s.tasks.get? id with _ | task
      · simp [branch, hget] at hb
      obtain ⟨rfl, hwaiting, hopt⟩ := timeoutBranch_eq_skip (by simpa [branch, hget] using hb)
      obtain rfl : id = t.id := (TaskTable.get?_eq_some.mp hget).2.symm
      refine ⟨error, some env.now, mem_trace_of_getTask hget ?_⟩
      rcases hwaiting with hstatus | hstatus
      all_goals
        simp only [hstatus, hopt]
        exact List.mem_cons_self
  | jobCreated =>
      simp only [branch] at hb
      split at hb <;> try split at hb
      all_goals cases hb
  | taskCompleted id => rcases hget : s.tasks.get? id with _ | task <;> simp [branch, hget] at hb
  | taskStarted _ | jobCancelRequested | jobCompleted | jobFailed _ | jobCancelled
  | engineNeeded _ => cases hb

theorem spared_of_step {s s' : World}
    (h : SystemStep (fun d s => ¬ RefusesOptional d s) (fun s e => ¬ FailsOptional s e) s s')
    (hspared : OptionalSpared s) : OptionalSpared s' := by
  cases h with
  | event h =>
      cases h with
      | deliver d ok h =>
          have hb := failsRequired_of_spared hspared ok
          exact (spared_of_permits hb hspared (wp_dispatch d.env d.event s)).1 s' h
      | engine e h =>
          rw [OptionalSpared, (sameRows_of_engine h s).2]
          exact hspared
  | scanner sweep e h ok =>
      have hscan := only_scan sweep e h
      refine hspared.apply ?_ ok
      cases e <;> first | exact hscan.elim | simp [Effect.newRows]
  | reconciler sweep e h ok =>
      have hreconcile := only_reconcileTasks sweep e h
      refine hspared.apply ?_ ok
      cases e <;> first | exact hreconcile.elim | simp [Effect.newRows]
  | stuckJob env sweep h =>
      obtain ⟨b, _, hb, hwp⟩ := wp_reconcileStuckJob env sweep s
      exact (spared_of_permits (fun t ht => absurd ht (hb t)) hspared hwp).1 s' h

/-- The optional tasks leave the job alone: none of them is failed, an event that ends the
attempts of one skips it, and what fails the job is a required task or no task at all. -/
structure LeavesJobAlone (s : World) : Prop where
  spared : OptionalSpared s
  skips : ∀ (d : Delivery) (t : TaskModel), branch s d.event = .skip t →
    ∃ error now, (s, Effect.skipTask t.id error now) ∈ (dispatch d.env d.event).trace s
  events : ∀ d : Delivery, ¬ RefusesOptional d s →
    ∀ x ∈ (dispatch d.env d.event).trace s, ¬ BlamesOptional x.1 x.2
  stuckJobs : ∀ (env : Env) (sweep : Sweep), ∀ x ∈ (reconcileStuckJob env sweep).trace s,
    ¬ BlamesOptional x.1 x.2

/-- Where no retry of an optional task is refused and no sweep fails one, the failures of
optional tasks never fail the job. -/
theorem optional_failures_spare_job {job : JobModel} {s : World}
    (h : SystemRun (fun d s => ¬ RefusesOptional d s) (fun s e => ¬ FailsOptional s e)
      (submitted job) s) : LeavesJobAlone s := by
  have hspared : OptionalSpared s := by
    induction h with
    | refl =>
        intro t ht
        cases ht
    | tail _ hstep ih => exact spared_of_step hstep ih
  refine ⟨hspared, fun d t => skipTask_mem_trace, ?_, ?_⟩
  · intro d hd
    have hb := failsRequired_of_spared hspared hd
    exact (spared_of_permits hb hspared (wp_dispatch d.env d.event s)).2
  · intro env sweep
    obtain ⟨b, _, hb, hwp⟩ := wp_reconcileStuckJob env sweep s
    exact (spared_of_permits (fun t ht => absurd ht (hb t)) hspared hwp).2

/-- No retry has been refused by the time a job has its tasks. -/
theorem optional_failures_spare_job_created :
    LeavesJobAlone ((Delivery.mk (sampleEnv monoDag fun _ => true) .jobCreated).run piiJob) :=
  optional_failures_spare_job (Relation.ReflTransGen.single
    (.event (Step.run ⟨sampleEnv monoDag fun _ => true, .jobCreated⟩ id)))

section Scan

/-- A sweep that finds every engine dead. -/
def deadEngines : Sweep where
  now := 0
  staleError := fun _ => some "Engine died"
  engineWaitTimeoutSeconds := 300
  longRunning := fun _ => false
  storeError := fun _ => false
  deadEntry := fun _ => false
  longReady := fun _ => false
  longStuck := fun _ => false

/-- The completed job after its enrichment task's engine has died and was found dead. -/
def scannedJob : World :=
  ((scan deadEngines).run ((Effect.claimEntry 2).apply enrichedJob)).2

theorem run_scannedJob :
    SystemRun (fun _ _ => True) (fun _ _ => True) piiJob scannedJob := by
  have hclaimed : Step (fun _ _ => True) enrichedJob ((Effect.claimEntry 2).apply enrichedJob) :=
    Step.engine (.claimEntry 2) trivial
  exact (systemRun_of_run (run_enrichedJob.tail hclaimed)).trans (systemRun_scan deadEngines _)

/-- The event of an optional task that the scanner failed turns a completed job failed. -/
theorem optional_failure_fails_job : ¬ ∀ s s' : World,
    SystemRun (fun _ _ => True) (fun _ _ => True) piiJob s → Step (fun _ _ => True) s s' →
      s.job.status = .completed → s'.job.status = .failed →
        ∃ t ∈ s'.tasks.rows, t.required = true ∧ t.status = .failed := by
  intro h
  have hrequired := h _ _ run_scannedJob
    (Step.run ⟨sampleEnv monoDag fun _ => true, .taskFailed 10 "Engine died"⟩ trivial)
    (by decide) (by decide)
  exact absurd hrequired (by decide)

end Scan

end Dalston.Orchestrator
