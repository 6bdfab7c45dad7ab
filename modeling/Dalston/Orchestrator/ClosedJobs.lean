import Dalston.Orchestrator.Deliveries

/-!
# Work on failed and cancelled jobs

When a job has failed or is cancelled no further pipeline task of it should be
queued, and a task that has failed, was skipped or was cancelled should not
become completed. The handler of a completed task looks at neither status: it
completes the task from any status but skipped, and it goes on to the
dependents of a failed job. A retry is queued for such a job as well. These
branches are the only ones.
-/

namespace Dalston.Orchestrator

open Foundation Model

/-- The job has failed or is cancelled. -/
def Closed (s : World) : Prop := s.job.status = .failed ∨ s.job.status = .cancelled

/-- The effect adds a stream entry for a pipeline task of a closed job. -/
def QueuesClosed (s : World) (e : Effect) : Prop :=
  Closed s ∧ ∃ entry ∈ e.newEntries s, ∃ t ∈ s.tasks.rows,
    t.id = entry.taskId ∧ isPostProcessingTask t = false

/-- The effect completes a task that has failed, was skipped or was cancelled. -/
def Resurrects (s : World) (e : Effect) : Prop :=
  ∃ t ∈ s.tasks.rows, t.status ∈ [.failed, .skipped, .cancelled] ∧
    (e.updateRow t).status = .completed

/-- The branch queues a pipeline task among the dependents it reaches. -/
def QueuesDependent (d : Delivery) (b : Branch) (s : World) : Prop :=
  Closed s ∧ ∃ t, Reaches b s t ∧ isPostProcessingTask t = false ∧
    accepts d.env (Task.modelValidate t)

/-- A retry of the task is queued under a key that is not used yet. -/
def QueuesRetry (d : Delivery) (task : TaskModel) (key : Nat) (s : World) : Prop :=
  Closed s ∧ isPostProcessingTask task = false ∧ accepts d.env (Task.modelValidate task) ∧
    s.retryEnqueued task.id key = false

/-- The delivery starts further work on a closed job, or brings a task back. -/
def Revives (d : Delivery) (s : World) : Prop :=
  match branch s d.event with
  | .settle task =>
      task.status = .failed ∨ task.status = .cancelled ∨ QueuesDependent d (.settle task) s
  | .skip task => QueuesDependent d (.skip task) s
  | .retry task => QueuesRetry d task (task.retries + 1) s
  | .requeue task => QueuesRetry d task task.retries s
  | .ignore | .build | .start _ | .fail _ | .refail _ | .cancel => False

theorem not_closed_of_running {s : World} (h : s.job.status = .running) : ¬ Closed s := by
  rintro (h' | h') <;> simp [h] at h'

theorem closed_of_status {s s₁ : World} (h : s₁.job.status = s.job.status) (hc : Closed s₁) :
    Closed s := by
  simpa only [Closed, h] using hc

section

variable {d : Delivery} {s s₁ : World}

theorem revives_of_queuesDependent {t : TaskModel} (hreach : Reaches (branch s d.event) s t)
    (hclosed : Closed s) (hpipeline : isPostProcessingTask t = false)
    (haccepts : accepts d.env (Task.modelValidate t)) : Revives d s := by
  have hcompletes := hreach.completes
  unfold Revives
  rcases hb : branch s d.event with _ | _ | _ | task | task | _ | _ | _ | _ | _ <;>
    simp only [hb, Branch.completion, Option.isSome_none, Bool.false_eq_true] at hcompletes
  · exact Or.inr (Or.inr ⟨hclosed, t, hb ▸ hreach, hpipeline, haccepts⟩)
  · exact ⟨hclosed, t, hb ▸ hreach, hpipeline, haccepts⟩

/-- An effect that queues work on a closed job belongs to a reviving delivery. -/
theorem revives_of_queuesClosed {e : Effect} (hp : Persists s s₁)
    (h : Permits d.env (branch s d.event) s s₁ e) (hq : QueuesClosed s₁ e) : Revives d s := by
  obtain ⟨hclosed, entry, hentry, t, ht, hid, hpipeline⟩ := hq
  cases e with
  | addTask queueId id =>
      simp only [Effect.newEntries, List.mem_singleton] at hentry
      subst hentry
      rcases h with ⟨_, hrunning⟩ | henriches | ⟨hstatus, t₀, hreach, rfl, haccepts⟩
      · exact absurd hclosed (not_closed_of_running hrunning)
      · rw [(henriches.enrichment t ht hid).1] at hpipeline
        cases hpipeline
      · have hdecl := hp.declared_eq hreach.mem ht hid
        rw [isPostProcessingTask_of_declared hdecl] at hpipeline
        exact revives_of_queuesDependent hreach (closed_of_status hstatus hclosed) hpipeline
          haccepts
  | addTaskOnce queueId id key =>
      simp only [Effect.newEntries] at hentry
      split at hentry
      · cases hentry
      rename_i hfresh
      simp only [List.mem_singleton] at hentry
      subst hentry
      obtain ⟨hjob, hkeys, t₀, rfl, haccepts, hb⟩ := h
      have hclosed₀ : Closed s := closed_of_status (congrArg JobModel.status hjob) hclosed
      have hmem₀ : t₀ ∈ s.tasks.rows := by
        rcases hb with ⟨hb, _⟩ | ⟨hb, _⟩ <;> exact mem_of_branch (by rw [hb]; rfl)
      have hdecl := hp.declared_eq hmem₀ ht hid
      rw [isPostProcessingTask_of_declared hdecl] at hpipeline
      have hfresh₀ : s.retryEnqueued t₀.id key = false := by
        refine decide_eq_false fun hkey => hfresh ?_
        exact decide_eq_true (hkeys hkey)
      rcases hb with ⟨hb, rfl⟩ | ⟨hb, rfl⟩
      · simpa [Revives, hb] using ⟨hclosed₀, hpipeline, haccepts, hfresh₀⟩
      · simpa [Revives, hb] using ⟨hclosed₀, hpipeline, haccepts, hfresh₀⟩
  | _ => cases hentry

/-- An effect that brings a task back belongs to a reviving delivery. -/
theorem revives_of_resurrects {e : Effect} (h : Permits d.env (branch s d.event) s s₁ e)
    (hr : Resurrects s₁ e) : Revives d s := by
  obtain ⟨t, ht, hstatus, hcompleted⟩ := hr
  have hopen : t.status ≠ .completed := by
    intro hc
    simp [hc] at hstatus
  cases e with
  | completeTask id now =>
      obtain ⟨rfl, task, hb, rfl, hncompleted, hnskipped⟩ := h
      by_cases hid : t.id = task.id
      swap
      · exact absurd (by simpa [Effect.updateRow, hid] using hcompleted) hopen
      have htask : t = task :=
        TaskTable.eq_of_id ht (mem_of_branch (by rw [hb]; rfl)) hid
      subst htask
      simp only [List.mem_cons, List.not_mem_nil, or_false, hnskipped, false_or] at hstatus
      rcases hstatus with hstatus | hstatus
      · simpa [Revives, hb] using Or.inl hstatus
      · simpa [Revives, hb] using Or.inr (Or.inl hstatus)
  | settleOrphans completed failed now => exact h.elim
  | _ =>
      refine absurd ?_ hopen
      simp only [Effect.updateRow] at hcompleted
      first
        | exact hcompleted
        | (split at hcompleted
           · simp at hcompleted
           · exact hcompleted)

end

/-- Along a run without a reviving delivery no handler queues a pipeline task of a closed
job, and none completes a task that has failed, was skipped or was cancelled. -/
theorem closed_job_rests {s₀ s : World} {e : Effect}
    (h : Performs (fun d s => ¬ Revives d s) s₀ s e) : ¬ QueuesClosed s e ∧ ¬ Resurrects s e := by
  obtain ⟨run, d, ok, hx⟩ := h
  obtain ⟨hpersists, hpermits⟩ := Delivery.permits_of_mem_trace hx
  exact ⟨fun hq => ok (revives_of_queuesClosed hpersists hpermits hq),
    fun hr => ok (revives_of_resurrects hpermits hr)⟩

instance (s : World) : Decidable (Closed s) := inferInstanceAs (Decidable (_ ∨ _))

instance (s : World) (e : Effect) : Decidable (QueuesClosed s e) :=
  inferInstanceAs (Decidable (_ ∧ _))

/-- A DAG whose diarization runs beside transcription and alignment. -/
def diarizeDag : Dag where
  tasks := [prepareTask, transcribeTask,
    pipelineTask [] 2 "align" "align" [1] [audioInputBinding none]
      [("word_timestamps", .bool true)] none,
    pipelineTask [] 3 "diarize" "diarize" [0] [audioInputBinding none] [] none]
  uniqueId := by decide
  uniqueStage := by decide
  pending := by simp [prepareTask, transcribeTask, pipelineTask, newTask]
  prepare := ⟨prepareTask, by simp, rfl, rfl⟩
  closed := by simp [prepareTask, transcribeTask, pipelineTask, newTask]
  pipeline := by
    simp [prepareTask, transcribeTask, pipelineTask, newTask, flag, DEFAULT_TRANSCRIBE_CONFIG,
      Dict.get?_cons]

def diarizedJob : World := submitted (newJob 0 [])

/-- Transcription and diarization run, and diarization fails for good. -/
def failedBranchMoves : List Move :=
  prepareMoves diarizeDag ++
    [Move.event diarizeDag (.taskStarted 1), Move.event diarizeDag (.taskStarted 3),
      Move.event diarizeDag
        (.taskFailed 3 "libcublas.so.12 is not found or cannot be loaded")]

def failedBranchJob : World := failedBranchMoves.foldl Move.apply diarizedJob

theorem run_failedBranchJob : Run (fun _ _ => True) diarizedJob failedBranchJob :=
  run_of_moves failedBranchMoves diarizedJob
    (by simp [failedBranchMoves, prepareMoves, Move.event, ofEngine])

/-- A late start event does no work on the failed job. -/
theorem closed_job_rests_start :
    ¬ QueuesClosed failedBranchJob (.claimRunning 1 0) ∧
      ¬ Resurrects failedBranchJob (.claimRunning 1 0) :=
  closed_job_rests (.deliver Relation.ReflTransGen.refl
    ⟨sampleEnv diarizeDag fun _ => true, .taskStarted 1⟩ id
    (x := (failedBranchJob, .claimRunning 1 0)) List.mem_cons_self)

/-- The completion of the other branch queues the alignment of a failed job. -/
theorem failed_job_continues : ¬ ∀ (s : World) (e : Effect),
    Performs (fun _ _ => True) diarizedJob s e → ¬ QueuesClosed s e ∧ ¬ Resurrects s e := by
  intro h
  have hqueued : ∃ x ∈ (dispatch (sampleEnv diarizeDag fun _ => true) (.taskCompleted 1)).trace
      failedBranchJob, QueuesClosed x.1 x.2 := by decide
  obtain ⟨x, hx, hq⟩ := hqueued
  exact (h x.1 x.2 (.deliver run_failedBranchJob
    ⟨sampleEnv diarizeDag fun _ => true, .taskCompleted 1⟩ trivial hx)).1 hq

end Dalston.Orchestrator
