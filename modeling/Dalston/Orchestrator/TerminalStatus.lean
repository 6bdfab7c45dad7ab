import Dalston.Orchestrator.Deliveries

/-!
# Terminal job statuses

A job that is completed, failed or cancelled should keep its status whatever
events are still delivered for it. Three places of the handlers write the
status of such a job all the same: the side effects of a failed task spare
failed and cancelled jobs but not completed ones, an engine error on a dependent
is written without a look at the job, and a failed job without tasks is built
again. A delivery that takes none of these branches leaves the status alone.
-/

namespace Dalston.Orchestrator

open Foundation Model

/-- The delivery writes a new status to a job that has a terminal one. -/
def Disturbs (d : Delivery) (s : World) : Prop :=
  match branch s d.event with
  | .build =>
      (∃ dag, d.env.buildTaskDag s.job = .ok dag) ∨
        s.job.status = .completed ∧
          ∃ message, d.env.buildTaskDag s.job = .error (.rejected message)
  | .settle task =>
      s.job.status ≠ .failed ∧
        ∃ t, Reaches (.settle task) s t ∧ engineFails d.env (Task.modelValidate t)
  | .skip task =>
      s.job.status ≠ .failed ∧
        ∃ t, Reaches (.skip task) s t ∧ engineFails d.env (Task.modelValidate t)
  | .retry task | .requeue task =>
      s.job.status = .completed ∧ engineFails d.env (Task.modelValidate task)
  | .fail _ | .refail _ => s.job.status = .completed
  | .ignore | .start _ | .cancel => False

theorem completed_of_terminal {status : JobStatus} (h : status.terminal)
    (hfailed : status ≠ .failed) (hcancelled : status ≠ .cancelled) : status = .completed := by
  cases status <;> simp_all [JobStatus.terminal]

theorem disturbs_of_failsJob {d : Delivery} {s : World} {t : TaskModel}
    (h : FailsJob d.env (branch s d.event) t) (hstatus : s.job.status = .completed) :
    Disturbs d s := by
  rcases h with hb | hb | ⟨hb | hb, hengine⟩
  · simpa [Disturbs, hb] using hstatus
  · simpa [Disturbs, hb] using hstatus
  · simpa [Disturbs, hb] using ⟨hstatus, hengine⟩
  · simpa [Disturbs, hb] using ⟨hstatus, hengine⟩

theorem disturbs_of_reaches {d : Delivery} {s : World} {t : TaskModel}
    (h : Reaches (branch s d.event) s t) (hengine : engineFails d.env (Task.modelValidate t))
    (hstatus : s.job.status ≠ .failed) : Disturbs d s := by
  have hcompletes := h.completes
  unfold Disturbs
  rcases hb : branch s d.event with _ | _ | _ | task | task | _ | _ | _ | _ | _ <;>
    simp only [hb, Branch.completion, Option.isSome_none, Bool.false_eq_true] at hcompletes
  · exact ⟨hstatus, t, hb ▸ h, hengine⟩
  · exact ⟨hstatus, t, hb ▸ h, hengine⟩

/-- An effect of an undisturbing delivery keeps a terminal status. -/
theorem status_of_permits {d : Delivery} {s s₁ : World} {e : Effect}
    (hterm : s.job.status.terminal) (hd : ¬ Disturbs d s) (hs : s₁.job.status = s.job.status)
    (h : Permits d.env (branch s d.event) s s₁ e) : (e.apply s₁).job.status = s.job.status := by
  have hnot : ∀ status, s₁.job.status = status → status.terminal := fun status h =>
    h ▸ hs ▸ hterm
  cases e with
  | failJobOnBuild error now =>
      obtain ⟨hb, rfl, message, hdag⟩ := h
      by_cases hfailed : s₁.job.status = .failed
      · exact hfailed.symm
      · refine absurd ?_ hd
        have hcompleted : s₁.job.status = .completed := by
          exact completed_of_terminal hterm hfailed (branch_eq_build hb).2.2.2.1
        simpa [Disturbs, hb] using Or.inr ⟨hcompleted, message, hdag⟩
  | saveTasks tasks now =>
      obtain ⟨hb, rfl, dag, hdag, rfl⟩ := h
      exact absurd (by simpa [Disturbs, hb] using Or.inl ⟨dag, hdag⟩) hd
  | failJobOnQueue error now =>
      rcases h with ⟨_, hrunning⟩ | ⟨_, t, hreach, hengine⟩
      · exact absurd (hnot _ hrunning) (by simp [JobStatus.terminal])
      · by_cases hfailed : s.job.status = .failed
        · exact hfailed.symm
        · exact absurd (disturbs_of_reaches hreach hengine hfailed) hd
  | failJobOnTask id error now =>
      obtain ⟨hjob, hfailed, hcancelled, t, hfails, _⟩ := h
      have hcompleted : s.job.status = .completed :=
        completed_of_terminal hterm (hjob ▸ hfailed) (hjob ▸ hcancelled)
      exact absurd (disturbs_of_failsJob hfails hcompleted) hd
  | finaliseJob status error now =>
      obtain ⟨_, _, _, hopen, _⟩ := h
      exact absurd (hnot _ rfl) (by simp [hopen])
  | cancelJob now => exact absurd (hnot _ h.2) (by simp [JobStatus.terminal])
  | addTaskOnce queueId id retries =>
      rw [← hs]
      simp only [Effect.apply]
      split <;> rfl
  | saveEnrichmentTasks tasks =>
      rw [← hs]
      simp only [Effect.apply]
      split <;> rfl
  | requestCancel status ids now => exact h.elim
  | _ => exact hs

theorem status_of_step {s s' : World} (hterm : s.job.status.terminal)
    (h : Step (fun d s => s.job.status.terminal → ¬ Disturbs d s) s s') :
    s'.job.status = s.job.status := by
  cases h with
  | deliver d ok h =>
      exact h.keeps (I := fun s₁ => s₁.job.status = s.job.status) rfl fun s₁ e hs he =>
        status_of_permits hterm (ok hterm) hs he
  | engine e h => rw [(sameRows_of_engine h s).1]

/-- Along a run without a disturbing delivery a terminal status never changes. -/
theorem terminal_status_absorbing {s s' : World}
    (hrun : Run (fun d s => s.job.status.terminal → ¬ Disturbs d s) s s')
    (hterm : s.job.status.terminal) : s'.job.status = s.job.status := by
  induction hrun with
  | refl => rfl
  | tail _ hstep ih => exact (status_of_step (ih ▸ hterm) hstep).trans ih

/-- A completion disturbs nothing while every engine can be queued to. -/
theorem not_disturbs_of_taskCompleted {env : Env} {id : Uuid} {s : World}
    (h : ∀ t, engineFails env (Task.modelValidate t) = false) :
    ¬ Disturbs ⟨env, .taskCompleted id⟩ s := by
  unfold Disturbs
  rcases hget : s.tasks.get? id with _ | task <;>
    simp [branch, hget, h]

/-- A duplicate of the last pipeline event leaves a completed job completed. -/
theorem terminal_status_absorbing_duplicate :
    ((Delivery.mk (sampleEnv monoDag fun _ => true) (.taskCompleted 1)).run enrichedJob).job.status =
      enrichedJob.job.status := by
  have hquiet : ¬ Disturbs ⟨sampleEnv monoDag fun _ => true, .taskCompleted 1⟩ enrichedJob :=
    not_disturbs_of_taskCompleted fun t => engineFails_of_available rfl rfl
  exact terminal_status_absorbing
    (Relation.ReflTransGen.single (Step.run _ fun _ => hquiet)) (by decide)

/-- The retry of an enrichment task whose engine has gone fails the completed job. -/
theorem completed_job_fails : ¬ ∀ s s' : World, Run (fun _ _ => True) piiJob s →
    s.job.status.terminal → Step (fun _ _ => True) s s' → s'.job.status = s.job.status := by
  intro h
  have hkept := h _ _ run_enrichedJob (by decide)
    (Step.run ⟨sampleEnv monoDag fun _ => false, .taskFailed 10 "out of memory"⟩ trivial)
  exact absurd hkept (by decide)

end Dalston.Orchestrator
