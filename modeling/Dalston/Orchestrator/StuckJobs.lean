import Dalston.Orchestrator.StatusChanges

/-!
# Recovery of stuck jobs

A job whose completion step was lost stays in the running status although its
pipeline has ended. The reconciler completes such a job once it was started,
and its pipeline tasks were completed, longer ago than a threshold. It goes by
the recorded times of completion and by `TERMINAL_TASK_STATES`, so it leaves a
job alone while a task of its pipeline is cancelled or has ended without a
recorded time.
-/

namespace Dalston.Orchestrator

open Foundation Model

def STUCK_RUNNING_JOB_THRESHOLD_SECONDS : Nat := 60

/-- The job started before the threshold, and no recorded completion is later than it. -/
def longStuckAt (now : Time) (w : World) : Bool :=
  (w.job.startedAt.any fun t => t + STUCK_RUNNING_JOB_THRESHOLD_SECONDS < now) &&
    (pipelineTasks w.tasks.rows).all fun t =>
      t.completedAt.all fun completed => completed + STUCK_RUNNING_JOB_THRESHOLD_SECONDS ≤ now

/-- The sweep compares the times of the rows with its clock. -/
def Sweep.ByClock (sweep : Sweep) : Prop := sweep.longStuck = longStuckAt sweep.now

/-- A task of the pipeline has ended, in any way. -/
def PipelineEnded (s : World) : Prop := ∀ t ∈ pipelineTasks s.tasks.rows, hasEnded t

/-- Every task of the pipeline has a terminal status and a recorded time of completion. -/
def PipelineRecorded (s : World) : Prop :=
  ∀ t ∈ pipelineTasks s.tasks.rows, t.status.terminal ∧ t.completedAt.isSome

/-- The job has ended in `s'` as the tasks of its pipeline have ended in `s`. -/
structure EndsAsItsTasks (env : Env) (s s' : World) : Prop where
  terminal : s'.job.status.terminal
  completed : s'.job.status = .completed →
    (∀ t ∈ pipelineTasks s.tasks.rows, t.required → t.status = .completed) ∧
      ∃ tasks transcript, pipelineTasks tasks = pipelineTasks s.tasks.rows ∧
        env.assembleTranscript s.job tasks s.responses = .ok transcript ∧
          s'.transcript = some transcript
  failed : (∃ t ∈ pipelineTasks s.tasks.rows, t.required ∧ t.status = .failed) →
    s'.job.status = .failed

section Histories

/-- Only optional tasks are skipped, and a job that was started has a pipeline. -/
structure Regular (s : World) : Prop where
  skipped : ∀ t ∈ s.tasks.rows, t.status = .skipped → t.required = false
  pipeline : s.job.startedAt.isSome → pipelineTasks s.tasks.rows ≠ []

/-- The rows a session knows are rows of the table, as they were declared. -/
def Remembered (s : World) (k : Known) : Prop := ∀ id, ∀ u ∈ k id, Saved s u

variable {s : World} {k : Known} {e : Effect}

theorem Remembered.learn (h : Remembered s k) (e : Effect) :
    Remembered (e.apply s) (learn k e s) := by
  intro id u hu
  simp only [Orchestrator.learn] at hu
  split_ifs at hu with hover hcommit
  · obtain ⟨v, hv, rfl⟩ := List.mem_map.mp hu
    obtain ⟨t, ht, hdecl⟩ := (h id v hv).apply e
    exact ⟨t, ht, hdecl.trans (e.declared_updateRow v).symm⟩
  · have hget : (e.apply s).tasks.get? id = some u := by simpa using hu
    exact ⟨u, (TaskTable.get?_eq_some.mp hget).1, rfl⟩
  · rcases List.mem_append.mp hu with hu | hu
    · have hget : s.tasks.get? id = some u := by
        cases e <;> simp_all [shows]
      exact Saved.apply ⟨u, (TaskTable.get?_eq_some.mp hget).1, rfl⟩ e
    · exact (h id u hu).apply e

theorem mem_inserts_of_newRows {t : TaskModel} (h : t ∈ e.newRows s) : t ∈ inserts e := by
  cases e <;> simp only [Effect.newRows] at h <;> first | cases h | skip
  all_goals
    split at h
    · exact h
    · cases h

/-- An effect with grounds skips no required task. -/
theorem skipped_of_grounded (hs : ∀ t ∈ s.tasks.rows, t.status = .skipped → t.required = false)
    (hk : Remembered s k) (hg : Grounded k e) :
    ∀ t ∈ (e.apply s).tasks.rows, t.status = .skipped → t.required = false := by
  intro t ht hskipped
  rw [e.rows_apply] at ht
  rcases List.mem_append.mp ht with ht | ht
  swap
  · rw [hg.fresh t (mem_inserts_of_newRows ht)] at hskipped
    cases hskipped
  obtain ⟨t₀, ht₀, rfl⟩ := List.mem_map.mp ht
  rw [required_of_declared (e.declared_updateRow t₀)]
  by_cases hover : t₀.id ∈ overwrites e
  · obtain ⟨u, hu, hid, hgrounds⟩ := hg.row t₀.id hover
    obtain ⟨v, hv, hdecl⟩ := hk t₀.id u hu
    have hvt : v = t₀ := TaskTable.eq_of_id hv ht₀ ((TaskModel.id_of_declared hdecl).trans hid)
    rw [← hvt, required_of_declared hdecl]
    exact hgrounds.optional (status_updateRow hid hover ▸ hskipped)
  · by_cases hclaim : t₀.id ∈ claims e
    · refine hs t₀ ht₀ ?_
      cases e <;> simp only [claims, List.mem_singleton, List.not_mem_nil] at hclaim
      all_goals
        simp only [Effect.updateRow, hclaim, true_and] at hskipped
        split at hskipped
        · cases hskipped
        · exact hskipped
    · exact hs t₀ ht₀ (by rwa [updateRow_of_untouched hover hclaim] at hskipped)

theorem mem_pipelineTasks {tasks : List TaskModel} {t : TaskModel} :
    t ∈ pipelineTasks tasks ↔ t ∈ tasks ∧ isPostProcessingTask t = false := by
  simp [pipelineTasks]

/-- No effect takes a task out of the pipeline. -/
theorem pipeline_apply (h : pipelineTasks s.tasks.rows ≠ []) :
    pipelineTasks (e.apply s).tasks.rows ≠ [] := by
  obtain ⟨t, ht⟩ := List.exists_mem_of_ne_nil _ h
  obtain ⟨hmem, hpipeline⟩ := mem_pipelineTasks.mp ht
  refine List.ne_nil_of_mem (a := e.updateRow t) (mem_pipelineTasks.mpr ⟨?_, ?_⟩)
  · rw [e.rows_apply]
    exact List.mem_append_left _ (List.mem_map_of_mem hmem)
  · rw [isPostProcessingTask_of_declared (e.declared_updateRow t), hpipeline]

/-- Only the insert of its tasks starts a job. -/
theorem startedAt_apply :
    (e.apply s).job.startedAt = s.job.startedAt ∨
      ∃ tasks now, e = .saveTasks tasks now ∧ s.tasks.Insertable tasks := by
  by_cases hsave : ∃ tasks now, e = .saveTasks tasks now ∧ s.tasks.Insertable tasks
  · exact Or.inr hsave
  · refine Or.inl ?_
    rcases e.job_apply s with hjob | ⟨_, hsame⟩
    · rw [hjob]
      cases e with
      | saveTasks tasks now =>
          have hins : ¬ s.tasks.Insertable tasks := fun h => hsave ⟨tasks, now, rfl, h⟩
          rw [← hjob]
          simp [Effect.apply, hins]
      | _ => rfl
    · rw [hsame]

theorem Regular.apply (h : Regular s) (hk : Remembered s k) (hg : Grounded k e) :
    Regular (e.apply s) := by
  refine ⟨skipped_of_grounded h.skipped hk hg, fun hstarted => ?_⟩
  rcases startedAt_apply (s := s) (e := e) with hsame | ⟨tasks, now, rfl, hins⟩
  · exact pipeline_apply (h.pipeline (hsame ▸ hstarted))
  · obtain ⟨t, ht⟩ := List.exists_mem_of_ne_nil _ (hg.starts tasks now rfl)
    obtain ⟨hmem, hpipeline⟩ := mem_pipelineTasks.mp ht
    refine List.ne_nil_of_mem (a := t) (mem_pipelineTasks.mpr ⟨?_, hpipeline⟩)
    simp [Effect.apply, hins, hmem]

theorem remembers_regular : Remembers learn Grounded unread EnginesOnly Regular Remembered := by
  refine ⟨fun s id u hu => (nomatch hu), fun pool i n _ _ hs hk hg => ⟨hs.apply hk hg, hk.learn _⟩,
    fun pool i n k _ _ _ _ hk _ id u hu => (hk id u hu).apply n.effect, fun pool n hok hs => ⟨?_, ?_⟩⟩
  · have hsame := sameRows_of_engine hok pool.store
    refine ⟨fun t ht => ?_, fun hstarted => ?_⟩
    · rw [apply_eq, hsame.2] at ht
      exact hs.skipped t ht
    · rw [apply_eq, hsame.1] at hstarted
      rw [apply_eq, hsame.2]
      exact hs.pipeline hstarted
  · exact fun k hk id u hu => (hk id u hu).apply n.effect

/-- Whatever the writers of a job do at once, its stores stay regular. -/
theorem regular_of_run {job : JobModel} {pool : JobPool} (hjob : job.startedAt = none)
    (run : Pool.Run sessions EnginesOnly (Pool.idle (submitted job)) pool) :
    Regular pool.store := by
  have hstart : Regular (submitted job) := by
    refine ⟨fun t ht => (by cases ht), fun hstarted => ?_⟩
    simp [submitted, hjob] at hstarted
  obtain ⟨_, hsessions⟩ := remembers_regular.run justified_code hstart run
  exact hsessions.store

end Histories

section Pass

/-- The passes over tasks leave the job, its pipeline and its responses alone. -/
structure SamePipeline (s s' : World) : Prop where
  job : s'.job = s.job
  responses : s'.responses = s.responses
  pipeline : pipelineTasks s'.tasks.rows = pipelineTasks s.tasks.rows

theorem SamePipeline.refl (s : World) : SamePipeline s s := ⟨rfl, rfl, rfl⟩

theorem SamePipeline.trans {s s' s'' : World} (h : SamePipeline s s') (h' : SamePipeline s' s'') :
    SamePipeline s s'' :=
  ⟨h'.job.trans h.job, h'.responses.trans h.responses, h'.pipeline.trans h.pipeline⟩

/-- An update that leaves the rows of the pipeline alone leaves the pipeline alone. -/
theorem pipelineTasks_map {f : TaskModel → TaskModel} {tasks : List TaskModel}
    (hdecl : ∀ t, (f t).declared = t.declared)
    (hsame : ∀ t ∈ pipelineTasks tasks, f t = t) :
    pipelineTasks (tasks.map f) = pipelineTasks tasks := by
  induction tasks with
  | nil => rfl
  | cons t rest ih =>
      have hpost := isPostProcessingTask_of_declared (hdecl t)
      have hrest : ∀ u ∈ pipelineTasks rest, f u = u := fun u hu =>
        hsame u (by
          obtain ⟨hmem, hpipeline⟩ := mem_pipelineTasks.mp hu
          exact mem_pipelineTasks.mpr ⟨List.mem_cons_of_mem _ hmem, hpipeline⟩)
      have ih := ih hrest
      by_cases hpipeline : isPostProcessingTask t = false
      · have ht : f t = t := hsame t (mem_pipelineTasks.mpr ⟨by simp, hpipeline⟩)
        simpa [pipelineTasks, ht, hpipeline] using ih
      · simpa [pipelineTasks, hpost, hpipeline] using ih

theorem samePipeline_of_rows {s : World} {e : Effect}
    (h : e = .read ∨ (∃ event, e = .publish event) ∨ requeueing e) :
    SamePipeline s (e.apply s) := by
  rcases h with rfl | ⟨event, rfl⟩ | h
  · exact .refl s
  · exact ⟨rfl, rfl, rfl⟩
  · cases e <;> first | exact h.elim | exact ⟨rfl, rfl, rfl⟩

/-- An ended task is no orphan. -/
theorem samePipeline_of_settle {s : World} {sweep : Sweep} (hended : PipelineEnded s)
    (s' : World) (hs' : s'.tasks = s.tasks) :
    SamePipeline s' ((Effect.settleOrphans (((orphans sweep s).filter (hasResponse s)).map (·.id))
      (((orphans sweep s).filter fun t => !hasResponse s t).map (·.id)) sweep.now).apply s') := by
  refine ⟨rfl, rfl, ?_⟩
  rw [Effect.rows_apply]
  simp only [Effect.newRows, List.append_nil]
  refine pipelineTasks_map (Effect.declared_updateRow _) fun t ht => ?_
  rw [hs'] at ht
  have hnot : ∀ p : TaskModel → Bool, t.id ∉ ((orphans sweep s).filter p).map (·.id) := by
    intro p hmem
    obtain ⟨u, hu, hid⟩ := List.mem_map.mp hmem
    obtain ⟨humem, hrunning⟩ := orphan_iff (List.mem_of_mem_filter hu)
    obtain rfl := TaskTable.eq_of_id humem (mem_pipelineTasks.mp ht).1 hid
    have hend := hended u ht
    simp [hasEnded, hrunning, TaskStatus.terminal] at hend
  simp only [Effect.updateRow, if_neg (hnot _)]

theorem wp_publishOrphans (responses : Uuid → Option Config) (tasks : List TaskModel)
    (s : World) :
    (publishOrphans responses tasks).wp (fun _ _ => True)
      (fun _ s' => SamePipeline s s' ∧ s'.tasks = s.tasks) s := by
  induction tasks generalizing s with
  | nil => exact ⟨.refl s, rfl⟩
  | cons task rest ih =>
      simp only [publishOrphans, Program.wp_bind, wp_exec]
      refine ⟨trivial, Program.wp_post (ih _) fun _ s' h => ?_⟩
      exact ⟨(samePipeline_of_rows (Or.inr (Or.inl ⟨_, rfl⟩))).trans h.1, h.2⟩

theorem wp_reconcileOrphanedDbTasks (sweep : Sweep) {s : World} (hended : PipelineEnded s) :
    (reconcileOrphanedDbTasks sweep).wp (fun _ _ => True) (fun _ s' => SamePipeline s s') s := by
  simp only [reconcileOrphanedDbTasks, settleFound, Program.wp_bind, wp_getWorld]
  refine ⟨trivial, Program.wp_post (wp_publishOrphans _ _ _) fun _ s₁ hs₁ => ?_⟩
  split
  · exact hs₁.1
  · exact ⟨trivial, hs₁.1.trans (samePipeline_of_settle hended s₁ hs₁.2)⟩

/-- The passes over tasks and entries do nothing to a pipeline that has ended. -/
theorem samePipeline_reconcileTasks (sweep : Sweep) {s : World} (hended : PipelineEnded s) :
    SamePipeline s ((reconcileTasks sweep).run s).2 := by
  have hrest : ∀ (entries : List StreamEntry) (s₁ : World), SamePipeline s s₁ → Program.wp
      (fun _ _ => True) (fun _ s' => SamePipeline s s') (do
        ackEndedEntries entries
        requeueDeadEntries sweep entries
        requeueConsumed sweep ((← getWorld).tasks.rows.filter fun t => t.status = .ready)) s₁ :=
    fun entries s₁ hs₁ => Program.wp_only_keeps (only_repairEntries sweep entries) hs₁
      fun s₂ e hs₂ he => hs₂.trans (samePipeline_of_rows (Or.inr (Or.inr he)))
  have hpass : (reconcileTasks sweep).wp (fun _ _ => True) (fun _ s' => SamePipeline s s') s := by
    rw [reconcileTasks, Program.wp_bind, wp_getWorld]
    refine ⟨trivial, ?_⟩
    rw [Program.wp_bind]
    exact Program.wp_post (wp_reconcileOrphanedDbTasks sweep hended) fun _ s₁ hs₁ => hrest _ s₁ hs₁
  exact Program.wp_run hpass

/-- The job and its transcript stay as they are. -/
def SameOutcome (s s' : World) : Prop := s'.job = s.job ∧ s'.transcript = s.transcript

theorem sameOutcome_of_ending {event : Event} {e : Effect} (h : ending event e) {s s' : World}
    (hs : SameOutcome s s') : SameOutcome s (e.apply s') := by
  cases e <;> first | exact h.elim | exact hs

theorem sameOutcome_of_queueing {task : Task} {key : Option Nat} {e : Effect}
    (h : queueing task key e) {s s' : World} (hs : SameOutcome s s') :
    SameOutcome s (e.apply s') := by
  cases e with
  | addTaskOnce queueId id retries =>
      simp only [Effect.apply]
      split <;> exact hs
  | _ => first | exact h.elim | exact hs

theorem wp_schedulePostProcessing_sameOutcome (env : Env) (job : JobModel) {s s₁ : World}
    (hs : SameOutcome s s₁) :
    (schedulePostProcessing env job).wp (fun _ _ => True) (fun _ s' => SameOutcome s s') s₁ := by
  simp only [schedulePostProcessing, Program.wp_bind, Program.wp_perform]
  refine ⟨trivial, ?_⟩
  have hsaved : ∀ models, SameOutcome s ((Effect.saveEnrichmentTasks models).apply s₁) := by
    intro models
    simp only [Effect.apply]
    split <;> exact hs
  split
  swap
  · exact hsaved _
  simp only [startPostProcessing, Program.wp_bind, wp_exec, wp_getWorld]
  refine ⟨trivial, trivial, trivial, ?_⟩
  refine wp_queueTask_of (I := SameOutcome s) (hsaved _)
    (fun _ _ hs he => sameOutcome_of_queueing he hs) (fun _ _ _ _ _ => trivial) fun r s₂ hs₂ _ => ?_
  cases r with
  | ok => exact hs₂
  | error _ => exact ⟨trivial, hs₂⟩

/-- What the completion step makes of a job whose pipeline has ended. -/
def Finalised (env : Env) (s s' : World) : Prop :=
  s'.job.status = (jobOutcome env s).status ∧
    ∀ transcript, (jobOutcome env s).transcript = some transcript → s'.transcript = some transcript

theorem wp_finaliseJob (env : Env) (s : World) :
    (finaliseJob env s).wp (fun _ _ => True) (fun _ s' => Finalised env s s') s := by
  have hwrite : (writeTranscript (jobOutcome env s).transcript).wp (fun _ _ => True)
      (fun _ s' => ∀ transcript, (jobOutcome env s).transcript = some transcript →
        s'.transcript = some transcript) s := by
    cases (jobOutcome env s).transcript with
    | none => exact fun _ h => nomatch h
    | some transcript => exact ⟨trivial, fun _ h => h⟩
  simp only [finaliseJob, Program.wp_bind, wp_exec]
  refine Program.wp_post hwrite fun _ s₁ hs₁ => ⟨trivial, ?_⟩
  let s₂ := (Effect.finaliseJob (jobOutcome env s).status (jobOutcome env s).error env.now).apply s₁
  have hdone : ∀ s', SameOutcome s₂ s' → Finalised env s s' := fun s' h =>
    ⟨congrArg JobModel.status h.1, fun transcript ht => h.2.trans (hs₁ transcript ht)⟩
  have hend := Program.wp_keeps (I := SameOutcome s₂)
    (wp_announceEnd (endEvent (jobOutcome env s)) s₂) ⟨rfl, rfl⟩
    fun _ _ hs he => sameOutcome_of_ending he hs
  refine Program.wp_mono hend (fun _ _ _ => trivial) fun _ s₃ hs₃ => ?_
  split
  · exact Program.wp_post (wp_schedulePostProcessing_sameOutcome env s.job hs₃.1)
      fun _ s' hs' => hdone s' hs'
  · exact hdone s₃ hs₃.1

theorem wp_reconcileStuckJob_finalises (env : Env) (sweep : Sweep) {s : World}
    (hrunning : s.job.status = .running) (haged : sweep.longStuck s)
    (hpipeline : pipelineTasks s.tasks.rows ≠ []) (hrecorded : PipelineRecorded s) :
    (reconcileStuckJob env sweep).wp (fun _ _ => True) (fun _ s' => Finalised env s s') s := by
  have hstuck : (pipelineTasks s.tasks.rows).all
      fun t => t.status.terminal && t.completedAt.isSome := by
    simpa [PipelineRecorded] using hrecorded
  have hended : (pipelineTasks s.tasks.rows).all fun t => t.status.terminal := by
    simpa using fun t ht => (hrecorded t ht).1
  simp only [reconcileStuckJob, Program.wp_bind, wp_getWorld, hrunning, haged, hstuck,
    List.isEmpty_eq_false_iff.mpr hpipeline, decide_true, Bool.not_false, Bool.and_self, if_true,
    checkJobCompletion, wp_selectTasks, hended, JobStatus.terminal, Bool.false_eq_true, if_false]
  exact ⟨trivial, trivial, trivial, wp_finaliseJob env s⟩

/-- The outcome of a job agrees with the tasks of its pipeline. -/
theorem endsAsItsTasks_of_finalised {env : Env} {s s₁ s' : World} (hs : Regular s)
    (hsame : SamePipeline s s₁) (hrecorded : PipelineRecorded s) (h : Finalised env s₁ s') :
    EndsAsItsTasks env s s' := by
  have hany : anyFailed s₁.tasks.rows ↔
      ∃ t ∈ pipelineTasks s.tasks.rows, t.required ∧ t.status = .failed := by
    simp [anyFailed, hsame.pipeline, and_comm]
  obtain ⟨hstatus, htranscript⟩ := h
  simp only [jobOutcome] at hstatus htranscript
  by_cases hfailed : anyFailed s₁.tasks.rows
  · rw [if_pos hfailed] at hstatus
    refine ⟨by simp [hstatus, JobStatus.terminal], ?_, fun _ => hstatus⟩
    simp [hstatus]
  · rw [if_neg hfailed] at hstatus htranscript
    rcases hassemble : env.assembleTranscript s₁.job s₁.tasks.rows s₁.responses with
      detail | transcript
    · rw [hassemble] at hstatus
      refine ⟨by simp [hstatus, JobStatus.terminal], ?_, fun _ => hstatus⟩
      simp [hstatus]
    · rw [hassemble] at hstatus htranscript
      refine ⟨by simp [hstatus, JobStatus.terminal], fun _ => ⟨fun t ht hrequired => ?_, ?_⟩,
        fun hrequired => absurd (hany.mpr hrequired) hfailed⟩
      · have hterminal := (hrecorded t ht).1
        have hskipped := hs.skipped t (mem_pipelineTasks.mp ht).1
        have hnot : t.status ≠ .failed := fun h => hfailed (hany.mpr ⟨t, ht, hrequired, h⟩)
        cases hcase : t.status <;> simp_all [TaskStatus.terminal]
      · rw [hsame.job, hsame.responses] at hassemble
        exact ⟨_, transcript, hsame.pipeline, hassemble, htranscript transcript rfl⟩

theorem longStuckAt_of_same {now : Time} {s s₁ : World} (hsame : SamePipeline s s₁) :
    longStuckAt now s₁ = longStuckAt now s := by
  simp only [longStuckAt, hsame.job, hsame.pipeline]

/-- After any history of a job, one pass that is not interrupted ends the running job as its
tasks have ended, once they have had recorded times of completion for longer than the
threshold. -/
theorem stuck_job_recovered {job : JobModel} {pool : JobPool} {env : Env} {sweep : Sweep}
    (hjob : job.startedAt = none)
    (run : Pool.Run sessions EnginesOnly (Pool.idle (submitted job)) pool)
    (hclock : sweep.ByClock) (hrunning : pool.store.job.status = .running)
    (haged : longStuckAt sweep.now pool.store) (hrecorded : PipelineRecorded pool.store) :
    EndsAsItsTasks env pool.store ((reconcile env sweep).run pool.store).2 := by
  have hregular := regular_of_run hjob run
  have hended : PipelineEnded pool.store := fun t ht => by simp [hasEnded, (hrecorded t ht).1]
  have hsame := samePipeline_reconcileTasks sweep hended
  have hstarted : pool.store.job.startedAt.isSome := by
    simp only [longStuckAt, Bool.and_eq_true] at haged
    exact Option.isSome_of_any haged.1
  have hfinal : (reconcileStuckJob env sweep).wp (fun _ _ => True)
      (fun _ s' => Finalised env ((reconcileTasks sweep).run pool.store).2 s')
      ((reconcileTasks sweep).run pool.store).2 := by
    refine wp_reconcileStuckJob_finalises env sweep (by rw [hsame.job, hrunning]) ?_ ?_ ?_
    · rw [hclock, longStuckAt_of_same hsame, haged]
    · rw [hsame.pipeline]
      exact hregular.pipeline hstarted
    · rw [PipelineRecorded, hsame.pipeline]
      exact hrecorded
  rw [reconcile, Program.run_bind]
  exact endsAsItsTasks_of_finalised hregular hsame hrecorded (Program.wp_run hfinal)

end Pass

section Runs

def handling (event : Event) : Writer := .handler (sampleEnv monoDag fun _ => true) event

/-- The turns of a handler that nothing interrupts. -/
def handled (event : Event) : List JobTurn := .start (handling event) :: List.replicate 40 (.move 0)

/-- A mono job comes to its transcription. -/
def transcribingTurns : List JobTurn :=
  handled .jobCreated ++ handled (.taskStarted 0) ++
    [.outside ⟨.putArtifact "0:prepared" preparedAudio, unread⟩] ++
      handled (.taskCompleted 0) ++ handled (.taskStarted 1)

/-- The handler commits the end of the transcription and is lost. -/
def lostAt (event : Event) : List JobTurn :=
  transcribingTurns ++ [.start (handling event), .move 0, .move 0, .fail 0]

def stuckPool (event : Event) : JobPool :=
  (Pool.idle (submitted (newJob 0 []))).turns sessions (lostAt event)

theorem enginesOnly_lostAt (event : Event) : ∀ t ∈ lostAt event, ∀ pool, EnginesOnly pool t := by
  have hmoves : ∀ n, ∀ t ∈ List.replicate n (.move 0 : JobTurn), ∀ pool, EnginesOnly pool t := by
    intro n t ht pool
    rw [List.eq_of_mem_replicate ht]
    trivial
  have hhandled : ∀ event, ∀ t ∈ handled event, ∀ pool, EnginesOnly pool t := by
    intro event t ht pool
    rcases List.mem_cons.mp ht with rfl | ht
    · trivial
    · exact hmoves 40 t ht pool
  intro t ht pool
  simp only [lostAt, transcribingTurns, List.mem_append, List.mem_cons, List.not_mem_nil,
    or_false] at ht
  rcases ht with ((((ht | ht) | rfl) | ht) | ht) | rfl | rfl | rfl | rfl
  all_goals first | exact hhandled _ t ht pool | trivial

theorem run_stuckPool (event : Event) :
    Pool.Run sessions EnginesOnly (Pool.idle (submitted (newJob 0 []))) (stuckPool event) :=
  Pool.run_of_allowed (Pool.allowed_of_forall (enginesOnly_lostAt event) _)

/-- A sweep that finds every engine alive and goes by its clock. -/
def clockSweep (now : Time) : Sweep :=
  { deadEngines with now := now, staleError := fun _ => none, longStuck := longStuckAt now }

/-- The completion of the last task was lost; the pass completes the job. -/
theorem stuck_job_recovered_completion :
    EndsAsItsTasks (sampleEnv monoDag fun _ => true) (stuckPool (.taskCompleted 1)).store
      ((reconcile (sampleEnv monoDag fun _ => true) (clockSweep 1000)).run
        (stuckPool (.taskCompleted 1)).store).2 :=
  stuck_job_recovered rfl (run_stuckPool (.taskCompleted 1)) rfl (by decide +kernel)
    (by decide +kernel)
    (by
      have hrecorded : (pipelineTasks (stuckPool (.taskCompleted 1)).store.tasks.rows).all
          fun t => t.status.terminal && t.completedAt.isSome := by
        decide +kernel
      simpa [PipelineRecorded] using hrecorded)

/-- A failure that was lost after its commit has no recorded time, and the job stays as it is. -/
theorem undated_failure_stuck : ¬ ∀ (pool : JobPool) (env : Env) (sweep : Sweep),
    Pool.Run sessions EnginesOnly (Pool.idle (submitted (newJob 0 []))) pool → sweep.ByClock →
      pool.store.job.status = .running → longStuckAt sweep.now pool.store →
        PipelineEnded pool.store → EndsAsItsTasks env pool.store
          ((reconcile env sweep).run pool.store).2 := by
  intro h
  have hended : PipelineEnded (stuckPool
      (.taskFailed 1 "libcublas.so.12 is not found or cannot be loaded")).store := by
    have hall : (pipelineTasks (stuckPool (.taskFailed 1
        "libcublas.so.12 is not found or cannot be loaded")).store.tasks.rows).all hasEnded := by
      decide +kernel
    simpa [PipelineEnded] using hall
  have hend := h _ (sampleEnv monoDag fun _ => true) (clockSweep 1000) (run_stuckPool _) rfl
    (by decide +kernel) (by decide +kernel) hended
  exact absurd hend.terminal (by decide +kernel)

end Runs

end Dalston.Orchestrator
