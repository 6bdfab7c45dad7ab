import Dalston.Orchestrator.Handlers

/-!
# What the handlers may do

The branch a handler takes is decided by its event and the world it starts in.
`Permits` says, effect by effect, what a handler may do in a world it reaches,
given the branch. The one theorem of this module is that the handlers do
nothing else; the safety results follow from it by cases on the effects.
-/

namespace Dalston.Orchestrator

open Foundation Model

/-- What a handler does with its event. -/
inductive Branch
  | ignore
  /-- Build the DAG of a job that has no tasks. -/
  | build
  | start (id : Uuid)
  /-- Mark a task as completed, unless it is completed or skipped, and go on. -/
  | settle (task : TaskModel)
  | skip (task : TaskModel)
  | retry (task : TaskModel)
  /-- Queue a ready task once more. -/
  | requeue (task : TaskModel)
  | fail (task : TaskModel)
  /-- Repeat the side effects of a failed task. -/
  | refail (task : TaskModel)
  | cancel

def failedBranch (task : TaskModel) (error : String) : Branch :=
  match task.status with
  | .skipped => .settle task
  | .failed => .refail task
  | .ready => .requeue task
  | .running =>
      if retries task error then .retry task
      else if task.required then .fail task
      else .skip task
  | .pending | .completed | .cancelled => .ignore

def timeoutBranch (task : TaskModel) : Branch :=
  match task.status with
  | .skipped => .settle task
  | .failed => .refail task
  | .ready | .pending => if task.required then .fail task else .skip task
  | .running | .completed | .cancelled => .ignore

/-- The branch an event takes in a world. -/
def branch (s : World) : Event → Branch
  | .jobCreated =>
      match s.job.status with
      | .cancelling | .cancelled | .running => .ignore
      | .pending | .completed | .failed => if s.tasks.rows = [] then .build else .ignore
  | .taskStarted id => .start id
  | .taskCompleted id => ((s.tasks.get? id).map .settle).getD .ignore
  | .taskFailed id error => ((s.tasks.get? id).map (failedBranch · error)).getD .ignore
  | .taskWaitTimeout id _ => ((s.tasks.get? id).map timeoutBranch).getD .ignore
  | .jobCancelRequested => .cancel
  | .jobCompleted | .jobFailed _ | .jobCancelled | .engineNeeded _ => .ignore

theorem failedBranch_ne_build (task : TaskModel) (error : String) :
    failedBranch task error ≠ .build := by
  unfold failedBranch
  split <;> try split <;> try split
  all_goals simp

theorem timeoutBranch_ne_build (task : TaskModel) : timeoutBranch task ≠ .build := by
  unfold timeoutBranch
  split <;> try split
  all_goals simp

/-- A DAG is built for a job without tasks only. -/
theorem branch_eq_build {s : World} {event : Event} (h : branch s event = .build) :
    event = .jobCreated ∧ s.tasks.rows = [] ∧ s.job.status ≠ .cancelling ∧
      s.job.status ≠ .cancelled ∧ s.job.status ≠ .running := by
  cases event with
  | jobCreated =>
      simp only [branch] at h
      split at h
      · cases h
      · cases h
      · cases h
      all_goals
        rename_i hstatus
        by_cases hrows : s.tasks.rows = []
        · simp [hrows, hstatus]
        · simp [hrows] at h
  | taskCompleted id => cases hget : s.tasks.get? id <;> simp [branch, hget] at h
  | taskFailed id error =>
      cases hget : s.tasks.get? id with
      | none => simp [branch, hget] at h
      | some task => exact absurd (by simpa [branch, hget] using h) (failedBranch_ne_build task error)
  | taskWaitTimeout id error =>
      cases hget : s.tasks.get? id with
      | none => simp [branch, hget] at h
      | some task => exact absurd (by simpa [branch, hget] using h) (timeoutBranch_ne_build task)
  | taskStarted _ | jobCancelRequested | jobCompleted | jobFailed _ | jobCancelled
  | engineNeeded _ => cases h

/-- The row the branch is about. -/
def Branch.row : Branch → Option TaskModel
  | settle task | skip task | retry task | requeue task | fail task | refail task => some task
  | ignore | build | start _ | cancel => none

theorem row_failedBranch {task t : TaskModel} {error : String}
    (h : (failedBranch task error).row = some t) : t = task := by
  unfold failedBranch at h
  split at h <;> try split at h <;> try split at h
  all_goals simp_all [Branch.row]

theorem row_timeoutBranch {task t : TaskModel} (h : (timeoutBranch task).row = some t) :
    t = task := by
  unfold timeoutBranch at h
  split at h <;> try split at h
  all_goals simp_all [Branch.row]

/-- Only a required task fails at once, and only a failed task fails again. -/
theorem required_of_failedBranch {task t : TaskModel} {error : String} :
    (failedBranch task error = .fail t → t.required) ∧
      (failedBranch task error = .refail t → t.status = .failed) := by
  constructor
  all_goals
    intro h
    unfold failedBranch at h
    split at h <;> try split at h <;> try split at h
    all_goals cases h <;> assumption

theorem required_of_timeoutBranch {task t : TaskModel} :
    (timeoutBranch task = .fail t → t.required) ∧
      (timeoutBranch task = .refail t → t.status = .failed) := by
  constructor
  all_goals
    intro h
    unfold timeoutBranch at h
    split at h <;> try split at h
    all_goals cases h <;> assumption

theorem required_of_branch {s : World} {event : Event} {t : TaskModel} :
    (branch s event = .fail t → t.required) ∧ (branch s event = .refail t → t.status = .failed) := by
  cases event with
  | jobCreated =>
      simp only [branch]
      split <;> try split
      all_goals simp
  | taskCompleted id => rcases hget : s.tasks.get? id with _ | task <;> simp [branch, hget]
  | taskFailed id error =>
      rcases hget : s.tasks.get? id with _ | task
      · simp [branch, hget]
      · simpa [branch, hget] using required_of_failedBranch
  | taskWaitTimeout id error =>
      rcases hget : s.tasks.get? id with _ | task
      · simp [branch, hget]
      · simpa [branch, hget] using required_of_timeoutBranch
  | taskStarted _ | jobCancelRequested | jobCompleted | jobFailed _ | jobCancelled
  | engineNeeded _ => simp [branch]

/-- A branch is about a row of the world it is taken in. -/
theorem mem_of_branch {s : World} {event : Event} {t : TaskModel}
    (h : (branch s event).row = some t) : t ∈ s.tasks.rows := by
  cases event with
  | jobCreated =>
      simp only [branch] at h
      split at h <;> try split at h
      all_goals cases h
  | taskCompleted id =>
      rcases hget : s.tasks.get? id with _ | task <;> simp [branch, hget, Branch.row] at h
      exact h ▸ (TaskTable.get?_eq_some.mp hget).1
  | taskFailed id error =>
      rcases hget : s.tasks.get? id with _ | task <;> simp only [branch, hget, Option.map_none,
        Option.map_some, Option.getD_none, Option.getD_some] at h
      · cases h
      · exact row_failedBranch h ▸ (TaskTable.get?_eq_some.mp hget).1
  | taskWaitTimeout id error =>
      rcases hget : s.tasks.get? id with _ | task <;> simp only [branch, hget, Option.map_none,
        Option.map_some, Option.getD_none, Option.getD_some] at h
      · cases h
      · exact row_timeoutBranch h ▸ (TaskTable.get?_eq_some.mp hget).1
  | taskStarted _ | jobCancelRequested | jobCompleted | jobFailed _ | jobCancelled
  | engineNeeded _ => cases h

/-- Queueing the task meets an engine error. -/
def engineFails (env : Env) (task : Task) : Bool :=
  match checkEngine env (withBindings task) with
  | .error (.engine _) => true
  | _ => false

/-- Nothing keeps the task from being queued to its engine. -/
def accepts (env : Env) (task : Task) : Bool :=
  match checkEngine env (withBindings task) with
  | .ok _ => true
  | .error _ => false

/-- The task the branch runs the completion side effects of. -/
def Branch.completion : Branch → Option TaskModel
  | settle task | skip task => some task
  | _ => none

/-- The rows that the completion side effects look at. -/
def settledRow (b : Branch) (t : TaskModel) : TaskStatus :=
  match b with
  | .settle task =>
      if t.id = task.id then
        match task.status with
        | .skipped => .skipped
        | _ => .completed
      else t.status
  | .skip task => if t.id = task.id then .skipped else t.status
  | _ => t.status

/-- The task has status completed once the branch has marked its own task. -/
def settledCompleted (b : Branch) (s : World) (id : Uuid) : Prop :=
  ∃ t ∈ s.tasks.rows, t.id = id ∧ settledRow b t = .completed

theorem isPostProcessingTask_of_declared {t u : TaskModel} (h : t.declared = u.declared) :
    isPostProcessingTask t = isPostProcessingTask u := by
  have hconfig : t.config = u.config := by
    simpa [TaskModel.declared] using congrArg TaskModel.config h
  rw [isPostProcessingTask, isPostProcessingTask, hconfig]

/-- The branch reaches the task as one of the dependents it queues. -/
structure Reaches (b : Branch) (s : World) (task : TaskModel) : Prop where
  completes : b.completion.isSome
  live : s.job.status ≠ .cancelling
  mem : task ∈ s.tasks.rows
  pending : settledRow b task = .pending
  met : ∀ id ∈ task.dependencies, settledCompleted b s id

/-- The request carries the bindings of the task that is queued. -/
def Carries (task : Task) (request : TaskRequestData) : Prop :=
  (withBindings task).inputBindings.mapM RequestBinding.modelValidate =
    some request.requestBindings

/-- The effects of queueing a task. -/
def queueing (task : Task) (key : Option Nat) : Effect → Prop
  | .read => True
  | .publish (.engineNeeded taskId) => taskId = task.id
  | .putRequest taskId request => taskId = task.id ∧ Carries task request
  | .setTaskMetadata taskId _ | .addWaitingTask taskId
  | .setRequestMetadata taskId _ _ | .setStreamMessageId taskId _ => taskId = task.id
  | .addTask _ taskId => taskId = task.id ∧ key = none
  | .addTaskOnce _ taskId retries => taskId = task.id ∧ key = some retries
  | _ => False

/-- The stage's row is an enrichment whose status satisfies `P`. -/
def EnrichmentRow (s : World) (stage : String) (P : TaskStatus → Prop) : Prop :=
  ∃ t ∈ s.tasks.rows, t.stage = stage ∧ isPostProcessingTask t ∧ P t.status

/-- The enrichment stage of a job whose pipeline has just ended. -/
structure Enriches (env : Env) (b : Branch) (s : World) (id : Uuid) : Prop where
  id_eq : id = env.piiDetectId
  completes : b.completion.isSome
  terminal : s.job.status.terminal
  enrichment : ∀ t ∈ s.tasks.rows, t.id = id → isPostProcessingTask t ∧ t.status ≠ .completed

/-- The branch saves a DAG with the task among its roots. -/
def IsRoot (env : Env) (b : Branch) (s : World) (id : Uuid) : Prop :=
  b = .build ∧ ∃ dag, env.buildTaskDag s.job = .ok dag ∧ ∃ t ∈ roots dag, t.id = id

/-- Where a task that is queued comes from: the DAG that was just saved, the enrichments that
were just saved, or a row that was there before. -/
inductive Hands (env : Env) (b : Branch) (s₀ s : World) : Task → Prop
  | root {dag : Dag} {task : Task} (hb : b = .build) (hdag : env.buildTaskDag s₀.job = .ok dag)
      (hroot : task ∈ roots dag) (saved : Saved s (task.toModel "request_bindings")) :
      Hands env b s₀ s task
  | enrichment (job : JobModel)
      (saved : Saved s ((piiDetectTask env job.parameters).toModel "input_bindings")) :
      Hands env b s₀ s (piiDetectTask env job.parameters)
  | row {t u : TaskModel} (hmem : t ∈ s₀.tasks.rows) (hdecl : u.declared = t.declared) :
      Hands env b s₀ s (Task.modelValidate u)

/-- The branch ends with the side effects of the failed task. -/
def FailsJob (env : Env) (b : Branch) (task : TaskModel) : Prop :=
  b = .fail task ∨ b = .refail task ∨
    (b = .retry task ∨ b = .requeue task) ∧ engineFails env (Task.modelValidate task)

/-- The events the orchestrator publishes. -/
def announces : Event → Prop
  | .jobCompleted | .jobFailed _ | .jobCancelled | .engineNeeded _ => True
  | .jobCreated | .taskStarted _ | .taskCompleted _ | .taskFailed .. | .taskWaitTimeout ..
  | .jobCancelRequested => False

/-- What a handler that takes the branch in `s₀` may do in a world `s` it reaches. -/
def Permits (env : Env) (b : Branch) (s₀ s : World) : Effect → Prop
  | .publish event => announces event
  | .read | .setTaskMetadata .. | .addWaitingTask _ | .setRequestMetadata ..
  | .setStreamMessageId .. | .setDecremented | .decrConcurrentJobs | .resetConcurrentJobs => True
  | .putRequest id request =>
      ∃ task, Hands env b s₀ s task ∧ id = task.id ∧ Carries task request
  | .failJobOnBuild .. =>
      b = .build ∧ s = s₀ ∧ ∃ message, env.buildTaskDag s₀.job = .error (.rejected message)
  | .saveTasks tasks _ =>
      b = .build ∧ s = s₀ ∧ ∃ dag, env.buildTaskDag s₀.job = .ok dag ∧ tasks = dagModels dag
  | .markReady id _ => IsRoot env b s₀ id ∧ s.job.status = .running ∨ Enriches env b s id
  | .failJobOnQueue .. =>
      b = .build ∧ s.job.status = .running ∨
        s.job.status = s₀.job.status ∧
          ∃ t, Reaches b s₀ t ∧ engineFails env (Task.modelValidate t)
  | .failJobOnTask id .. =>
      s.job = s₀.job ∧ s.job.status ≠ .failed ∧ s.job.status ≠ .cancelled ∧
        ∃ t, FailsJob env b t ∧ id = t.id
  | .finaliseJob status error _ =>
      b.completion.isSome ∧ s.job.status = s₀.job.status ∧ s.job.status ≠ .cancelling ∧
        s.job.status.terminal = false ∧ (status = .completed ∨
          status = .failed ∧ (anyFailed s.tasks.rows ∨ ∃ detail, error = some (.assembly detail)))
  | .cancelJob _ =>
      (b.completion.isSome ∨ b = .cancel) ∧ s.job.status = .cancelling
  | .claimReady id _ => ∃ t, Reaches b s₀ t ∧ id = t.id
  | .claimRunning id _ => b = .start id
  | .completeTask id _ =>
      s = s₀ ∧ ∃ t, b = .settle t ∧ id = t.id ∧ t.status ≠ .completed ∧ t.status ≠ .skipped
  | .retryTask id .. => s = s₀ ∧ ∃ t, b = .retry t ∧ id = t.id
  | .skipTask id .. => s = s₀ ∧ ∃ t, b = .skip t ∧ id = t.id
  | .failTask id .. =>
      s.job = s₀.job ∧ ∃ t, id = t.id ∧
        (b = .fail t ∨ (b = .retry t ∨ b = .requeue t) ∧ engineFails env (Task.modelValidate t))
  | .cancelTasks ids =>
      b = .cancel ∧ ids = idsIn [.pending, .ready] s.tasks.rows ∨
        b.completion.isSome ∧ s.job.status = .cancelling ∧ ids = idsIn [.pending] s.tasks.rows
  | .addTask _ id =>
      IsRoot env b s₀ id ∧ s.job.status = .running ∨ Enriches env b s id ∨
        s.job.status = s₀.job.status ∧
          ∃ t, Reaches b s₀ t ∧ id = t.id ∧ accepts env (Task.modelValidate t)
  | .addTaskOnce _ id key =>
      s.job = s₀.job ∧ s₀.retryKeys ⊆ s.retryKeys ∧ ∃ t, id = t.id ∧ accepts env (Task.modelValidate t) ∧
        (b = .retry t ∧ key = t.retries + 1 ∨ b = .requeue t ∧ key = t.retries)
  | .saveEnrichmentTasks tasks =>
      b.completion.isSome ∧ s.job.status.terminal ∧
        ∃ job, tasks = (buildPostProcessingTasks env job).map (Task.toModel "input_bindings")
  | .setEnrichments stages =>
      b.completion.isSome ∧ ∀ stage ∈ stages, EnrichmentRow s stage fun status => status = .pending
  | .setEnrichment stage status =>
      b.completion.isSome ∧
        EnrichmentRow s stage fun rowStatus => status = .completed ∨ rowStatus ≠ .completed
  | .putTranscript transcript =>
      b.completion.isSome ∧ (s.job.status.terminal = false ∨
        ∃ patch, transcriptPatch s = some patch ∧ transcript = patch.transcript)
  | .setPiiResult .. | .setAudioDuration _ => b.completion.isSome
  | .markJobCancelled => b = .cancel
  | .requestCancel .. | .settleOrphans .. | .claimEntry _ | .ackEntry _ | .deleteEntry _ | .putResponse ..
  | .putArtifact .. | .ackEvent _ | .blockTask .. | .clearWaitingTask _ => False

variable {G : World → Effect → Prop}

/-- Two worlds with the same job row and the same tasks. -/
def SameRows (s s' : World) : Prop := s'.job = s.job ∧ s'.tasks = s.tasks

theorem SameRows.refl (s : World) : SameRows s s := ⟨rfl, rfl⟩

/-- Queueing a task writes no row. -/
theorem sameRows_of_queueing {task : Task} {key : Option Nat} {e : Effect} (h : queueing task key e)
    (s : World) : SameRows s (e.apply s) := by
  cases e with
  | addTaskOnce queueId taskId retries =>
      by_cases hk : s.retryEnqueued taskId retries <;>
        simp [SameRows, Effect.apply, hk]
  | _ => first | exact ⟨rfl, rfl⟩ | exact h.elim

theorem SameRows.trans {s s' s'' : World} (h : SameRows s s') (h' : SameRows s' s'') :
    SameRows s s'' :=
  ⟨h'.1.trans h.1, h'.2.trans h.2⟩

@[simp] theorem withBindings_id (task : Task) : (withBindings task).id = task.id := by
  unfold withBindings
  split <;> rfl

theorem wp_enqueue (task : Task) (key : Option Nat) (s : World) :
    (enqueue (withBindings task) key).wp (fun _ e => queueing task key e) (fun _ _ => True) s := by
  cases key with
  | none => simp [enqueue, queueing]
  | some retries =>
      simp only [enqueue, Program.wp_bind, Program.wp_perform]
      refine ⟨⟨withBindings_id task, rfl⟩, ?_⟩
      split <;> simp [queueing]

/-- A request has the bindings of its task. -/
theorem carries_of_taskRequest {env : Env} {task : Task} {responses : Config}
    {audio : Option AudioMetadata} {index : Dict ArtifactReference} {request : TaskRequestData}
    (h : taskRequest env (withBindings task) responses audio index = some request) :
    Carries task request := by
  unfold taskRequest at h
  obtain ⟨bindings, hbindings, h⟩ := Option.bind_eq_some_iff.mp h
  obtain ⟨resolved, _, h⟩ := Option.bind_eq_some_iff.mp h
  dsimp only at h
  split at h
  · rw [← Option.some.inj h]
    exact hbindings
  · cases h

/-- Retry keys are never taken back. -/
theorem retryKeys_of_queueing {task : Task} {key : Option Nat} {e : Effect}
    (h : queueing task key e) (s : World) : s.retryKeys ⊆ (e.apply s).retryKeys := by
  cases e with
  | addTaskOnce queueId taskId retries =>
      simp only [Effect.apply]
      split
      · exact fun _ h => h
      · exact List.subset_append_left _ _
  | _ => first | exact fun _ h => h | exact h.elim

theorem wp_queueTask (env : Env) (task : Task) (responses : Config)
    (audio : Option AudioMetadata) (key : Option Nat) (s : World) :
    (queueTask env task responses audio key).wp
      (fun _ e => queueing task key e ∧ accepts env task)
      (fun r _ => ∀ detail, r = .error (.engine detail) → engineFails env task) s := by
  have hid : (withBindings task).id = task.id := withBindings_id task
  simp only [queueTask]
  rcases hc : checkEngine env (withBindings task) with error | waiting
  · simp only [Program.pure_eq, Program.wp_done]
    rintro detail ⟨⟩
    simp [engineFails, hc]
  · have haccepts : accepts env task := by simp [accepts, hc]
    have hwait : (announceWait (withBindings task) waiting).wp
        (fun _ e => queueing task key e ∧ accepts env task) (fun _ _ => True) s := by
      cases waiting <;> simp [announceWait, queueing, haccepts]
    have hregister : ∀ s, (registerWait (withBindings task) waiting).wp
        (fun _ e => queueing task key e ∧ accepts env task) (fun _ _ => True) s := by
      intro s
      cases waiting <;> simp [registerWait, queueing, haccepts]
    have hdispatch : ∀ request s, (∀ r, request = some r → Carries task r) →
        (dispatchRequest (withBindings task) key request).wp
          (fun _ e => queueing task key e ∧ accepts env task)
          (fun r _ => ∀ detail, r = .error (.engine detail) → engineFails env task) s := by
      intro request s hcarries
      cases request with
      | none => simp [dispatchRequest]
      | some request =>
          simp only [dispatchRequest, Program.wp_bind, wp_exec, Program.pure_eq, Program.wp_done]
          refine ⟨⟨⟨hid, hcarries request rfl⟩, haccepts⟩, ⟨hid, haccepts⟩, ?_⟩
          refine Program.wp_mono (wp_enqueue _ _ _) (fun _ _ h => ⟨h, haccepts⟩) ?_
          simp
    simp only [Program.wp_bind, wp_exec, wp_getWorld]
    refine Program.wp_post hwait fun _ s₁ _ => ⟨⟨hid, haccepts⟩, ?_⟩
    refine Program.wp_post (hregister _) fun _ s₂ _ => ⟨⟨trivial, haccepts⟩, ?_⟩
    exact hdispatch _ _ fun _ => carries_of_taskRequest

/-- Queueing a task under an invariant that its effects keep. -/
theorem wp_queueTask_of {I : World → Prop} {Q : Except QueueError Unit → World → Prop}
    {env : Env} {task : Task} {responses : Config} {audio : Option AudioMetadata}
    {key : Option Nat} {s : World} (hI : I s)
    (keep : ∀ s e, I s → queueing task key e → I (e.apply s))
    (hG : ∀ s e, I s → queueing task key e → accepts env task → G s e)
    (hQ : ∀ r s, I s → (∀ detail, r = .error (.engine detail) → engineFails env task) → Q r s) :
    (queueTask env task responses audio key).wp G Q s := by
  have h := Program.wp_keeps (wp_queueTask env task responses audio key s) hI
    fun s e hs he => keep s e hs he.1
  exact Program.wp_mono h (fun s e h => hG s e h.1 h.2.1 h.2.2) fun r s h => hQ r s h.1 h.2

/-- The effects of releasing a slot and publishing an event. -/
def ending (event : Event) : Effect → Prop
  | .publish published => published = event
  | .setDecremented | .decrConcurrentJobs | .resetConcurrentJobs => True
  | _ => False

theorem wp_announceEnd (event : Event) (s : World) :
    (announceEnd event).wp (fun _ e => ending event e) (fun _ _ => True) s := by
  simp only [announceEnd, decrementConcurrentJobs, releaseSlot, Program.wp_bind,
    Program.wp_perform]
  refine ⟨trivial, ?_⟩
  by_cases hd : s.decremented
  · simp [hd, ending]
  · simp only [hd, Bool.false_eq_true, if_false, Program.wp_bind, Program.wp_perform]
    refine ⟨trivial, ?_⟩
    split <;> simp [ending]

/-- Ending a job writes no row. -/
theorem sameRows_of_ending {event : Event} {e : Effect} (h : ending event e) (s : World) :
    SameRows s (e.apply s) := by
  cases e <;> first | exact ⟨rfl, rfl⟩ | exact h.elim

theorem wp_announceEnd_of {Q : Unit → World → Prop} {event : Event} {s : World}
    (hG : ∀ s e, ending event e → G s e) (hQ : ∀ s', SameRows s s' → Q () s') :
    (announceEnd event).wp G Q s := by
  have h := Program.wp_keeps (I := SameRows s) (wp_announceEnd event s) (SameRows.refl s)
    fun s' e hs he => hs.trans (sameRows_of_ending he s')
  exact Program.wp_mono h (fun s e h => hG s e h.2) fun _ s h => hQ s h.1

variable {env : Env} {b : Branch} {s₀ : World}

theorem permits_of_ending {s : World} {event : Event} {e : Effect} (ha : announces event)
    (h : ending event e) : Permits env b s₀ s e := by
  cases e with
  | publish published => exact h ▸ ha
  | _ => trivial

/-- Queueing is permitted where adding the task's entry is. -/
theorem permits_of_queueing {s : World} {task : Task} {key : Option Nat} {e : Effect}
    (h : queueing task key e) (hhands : Hands env b s₀ s task)
    (hadd : key = none → ∀ queueId, Permits env b s₀ s (.addTask queueId task.id))
    (honce : ∀ n, key = some n → ∀ queueId, Permits env b s₀ s (.addTaskOnce queueId task.id n)) :
    Permits env b s₀ s e := by
  cases e with
  | putRequest taskId request => exact ⟨task, hhands, h⟩
  | publish event => cases event <;> trivial
  | addTask queueId taskId =>
      obtain ⟨rfl, hkey⟩ := h
      exact hadd hkey queueId
  | addTaskOnce queueId taskId retries =>
      obtain ⟨rfl, hkey⟩ := h
      exact honce retries hkey queueId
  | _ => trivial

theorem wp_announceEnd_permits {Q : Unit → World → Prop} {event : Event} {s : World}
    (ha : announces event) (hQ : ∀ s', SameRows s s' → Q () s') :
    (announceEnd event).wp (Permits env b s₀) Q s :=
  wp_announceEnd_of (fun _ _ => permits_of_ending ha) hQ

theorem announces_endEvent (outcome : JobOutcome) : announces (endEvent outcome) := by
  unfold endEvent
  split <;> trivial

section Build

variable (hb : b = .build)

include hb

theorem wp_queueRoots {dag : Dag} (hdag : env.buildTaskDag s₀.job = .ok dag)
    (audio : Option AudioMetadata) (tasks : List Task) (htasks : ∀ t ∈ tasks, t ∈ roots dag)
    (s : World) (hs : s.job.status = .running)
    (hsaved : ∀ t ∈ roots dag, Saved s (t.toModel "request_bindings")) :
    (queueRoots env audio tasks).wp (Permits env b s₀) (fun _ _ => True) s := by
  induction tasks generalizing s with
  | nil => simp [queueRoots]
  | cons task rest ih =>
      have hmem : task ∈ roots dag := htasks task (by simp)
      have hroot : IsRoot env b s₀ task.id := ⟨hb, dag, hdag, task, hmem, rfl⟩
      simp only [queueRoots, Program.wp_bind, wp_exec]
      refine ⟨Or.inl ⟨hroot, hs⟩, ?_⟩
      refine wp_queueTask_of (I := fun s => s.job.status = .running ∧
        ∀ t ∈ roots dag, Saved s (t.toModel "request_bindings"))
        ⟨hs, fun t ht => (hsaved t ht).apply _⟩ ?_ ?_ ?_
      · intro s e hs he
        rw [(sameRows_of_queueing he s).1]
        exact ⟨hs.1, fun t ht => (hs.2 t ht).apply e⟩
      · intro s e hs he _
        exact permits_of_queueing he (.root hb hdag hmem (hs.2 task hmem))
          (fun _ _ => Or.inl ⟨hroot, hs.1⟩) (fun _ h => by cases h)
      · intro r s hs _
        rcases r with (detail | _) | _
        · simp only [failJobOnQueue, Program.wp_bind, wp_exec]
          exact ⟨Or.inl ⟨hb, hs.1⟩, wp_announceEnd_permits trivial fun _ _ => trivial⟩
        · trivial
        · exact ih (fun t ht => htasks t (by simp [ht])) s hs.1 hs.2

theorem wp_buildJob (hrows : s₀.tasks.rows = []) :
    (buildJob env s₀.job).wp (Permits env b s₀) (fun _ _ => True) s₀ := by
  simp only [buildJob, Program.wp_bind, wp_selectTasks]
  refine ⟨trivial, ?_⟩
  rw [hrows]
  rcases hdag : env.buildTaskDag s₀.job with (message | _) | dag
  · simp only [failJobOnBuild, Program.wp_bind, wp_exec]
    exact ⟨⟨hb, rfl, message, hdag⟩, wp_announceEnd_permits trivial fun _ _ => trivial⟩
  · trivial
  · simp only [saveDag, Program.wp_bind, Program.wp_perform]
    refine ⟨⟨hb, rfl, dag, hdag, rfl⟩, ?_⟩
    by_cases hins : s₀.tasks.Insertable (dagModels dag)
    · rw [if_pos hins]
      refine wp_queueRoots hb hdag _ _ (fun _ h => h) _ ?_ ?_
      · simp [Effect.apply, hins, Effect.updateJob]
      · intro t ht
        apply saved_of_newRows
        rw [Effect.newRows, if_pos hins]
        exact List.mem_map_of_mem (List.mem_of_mem_filter ht)
    · rw [if_neg hins]
      split <;> trivial

end Build

/-- The bindings of a task have no part in the check of its engine. -/
@[simp] theorem checkEngine_withBindings (task : Task) :
    checkEngine env (withBindings task) = checkEngine env task := by
  unfold withBindings
  split <;> rfl

/-- Only the declared columns of a row decide whether its engine can be queued to. -/
theorem engineFails_of_declared {t t' : TaskModel} (h : t.declared = t'.declared) :
    engineFails env (Task.modelValidate t) = engineFails env (Task.modelValidate t') := by
  have hdeclared : ∀ t : TaskModel, checkEngine env (Task.modelValidate t) =
      checkEngine env (Task.modelValidate t.declared) := fun _ => rfl
  simp only [engineFails, checkEngine_withBindings]
  rw [hdeclared t, hdeclared t', h]

theorem accepts_of_declared {t t' : TaskModel} (h : t.declared = t'.declared) :
    accepts env (Task.modelValidate t) = accepts env (Task.modelValidate t') := by
  have hdeclared : ∀ t : TaskModel, checkEngine env (Task.modelValidate t) =
      checkEngine env (Task.modelValidate t.declared) := fun _ => rfl
  simp only [accepts, checkEngine_withBindings]
  rw [hdeclared t, hdeclared t', h]

/-- The rows of `s` are those of `s₀` once the branch has marked its own task. -/
structure Settled (b : Branch) (s₀ s : World) : Prop where
  job : s.job.status = s₀.job.status
  stream : s.stream = s₀.stream
  rows : ∃ f : TaskModel → TaskModel, s.tasks.rows = s₀.tasks.rows.map f ∧
    ∀ t ∈ s₀.tasks.rows, (f t).declared = t.declared ∧ (f t).status = settledRow b t

/-- Every row of the settled world is a row of the old one. -/
theorem Settled.old {s : World} (h : Settled b s₀ s) {t : TaskModel} (ht : t ∈ s.tasks.rows) :
    ∃ t₀ ∈ s₀.tasks.rows, t.declared = t₀.declared ∧ t.status = settledRow b t₀ := by
  obtain ⟨f, hrows, hf⟩ := h.rows
  rw [hrows] at ht
  obtain ⟨t₀, ht₀, rfl⟩ := List.mem_map.mp ht
  exact ⟨t₀, ht₀, hf t₀ ht₀⟩

/-- Every row of the old world is a row of the settled one. -/
theorem Settled.new {s : World} (h : Settled b s₀ s) {t₀ : TaskModel}
    (ht₀ : t₀ ∈ s₀.tasks.rows) :
    ∃ t ∈ s.tasks.rows, t.declared = t₀.declared ∧ t.status = settledRow b t₀ := by
  obtain ⟨f, hrows, hf⟩ := h.rows
  refine ⟨f t₀, ?_, hf t₀ ht₀⟩
  rw [hrows]
  exact List.mem_map_of_mem ht₀

theorem mem_idsIn {statuses : List TaskStatus} {tasks : List TaskModel} {id : Uuid} :
    id ∈ idsIn statuses tasks ↔ ∃ t ∈ tasks, t.id = id ∧ t.status ∈ statuses := by
  simp only [idsIn, List.mem_map, List.mem_filter, decide_eq_true_eq]
  constructor
  · rintro ⟨t, ⟨ht, hs⟩, rfl⟩
    exact ⟨t, ht, rfl, hs⟩
  · rintro ⟨t, ht, rfl, hs⟩
    exact ⟨t, ⟨ht, hs⟩, rfl⟩

theorem Settled.completed {s : World} (hs : Settled b s₀ s) {id : Uuid} :
    settledCompleted b s₀ id ↔ id ∈ idsIn [.completed] s.tasks.rows := by
  rw [mem_idsIn]
  constructor
  · rintro ⟨t₀, ht₀, rfl, hstatus⟩
    obtain ⟨t, ht, hdecl, hsettled⟩ := hs.new ht₀
    exact ⟨t, ht, TaskModel.id_of_declared hdecl, by simp [hsettled, hstatus]⟩
  · rintro ⟨t, ht, rfl, hstatus⟩
    obtain ⟨t₀, ht₀, hdecl, hsettled⟩ := hs.old ht
    exact ⟨t₀, ht₀, (TaskModel.id_of_declared hdecl).symm,
      hsettled.symm.trans (by simpa using hstatus)⟩

section Completion

variable (hb : b.completion.isSome)

include hb

theorem Settled.reaches {s : World} (hs : Settled b s₀ s) (hlive : s.job.status ≠ .cancelling)
    {task : TaskModel} (hmem : task ∈ s.tasks.rows) (hpending : task.status = .pending)
    (hmet : depsMet s.tasks.rows task) :
    ∃ t, Reaches b s₀ t ∧ task.declared = t.declared := by
  obtain ⟨t₀, hmem₀, hdecl, hstatus⟩ := hs.old hmem
  refine ⟨t₀, ⟨hb, hs.job ▸ hlive, hmem₀, hstatus.symm.trans hpending, ?_⟩, hdecl⟩
  intro id hid
  rw [← TaskModel.dependencies_of_declared hdecl] at hid
  have hdone : id ∈ idsIn [.completed] s.tasks.rows := by
    simpa using List.all_eq_true.mp hmet id hid
  exact hs.completed.mpr hdone

theorem wp_scheduleDependents {s₁ : World} (hs₁ : Settled b s₀ s₁)
    (hlive : s₁.job.status ≠ .cancelling) (rest : List TaskModel)
    (hrest : ∀ t ∈ rest, t ∈ s₁.tasks.rows) (s : World)
    (hs : s.job.status = s₀.job.status) :
    (scheduleDependents env s₁.tasks.rows rest).wp (Permits env b s₀)
      (fun r s => s.job.status = s₀.job.status ∧ ∀ detail, r = .error (.engine detail) →
        ∃ t, Reaches b s₀ t ∧ engineFails env (Task.modelValidate t)) s := by
  induction rest generalizing s with
  | nil => simpa [scheduleDependents] using hs
  | cons task rest ih =>
      have ih := ih fun t ht => hrest t (by simp [ht])
      rw [scheduleDependents]
      by_cases hready : task.status = .pending ∧ depsMet s₁.tasks.rows task
      swap
      · rw [if_neg hready]
        exact ih s hs
      rw [if_pos hready]
      obtain ⟨t, hreach, hdecl⟩ :=
        hs₁.reaches hb hlive (hrest task (by simp)) hready.1 hready.2
      have hid : task.id = t.id := TaskModel.id_of_declared hdecl
      simp only [scheduleDependent, Program.wp_bind, Program.wp_perform]
      refine ⟨⟨t, hreach, hid⟩, ?_⟩
      by_cases hclaim : claimable s task.id
      swap
      · rw [if_neg hclaim]
        exact ih _ hs
      rw [if_pos hclaim]
      simp only [Program.wp_bind, wp_getWorld]
      refine ⟨trivial, ?_⟩
      refine wp_queueTask_of (I := fun s => s.job.status = s₀.job.status) hs ?_ ?_ ?_
      · intro s e hs he
        rw [(sameRows_of_queueing he s).1]
        exact hs
      · intro s e hs he haccepts
        have haccepts' : accepts env (Task.modelValidate t) :=
          (accepts_of_declared (t := { task with status := .ready, readyAt := some env.now })
            hdecl).symm.trans haccepts
        exact permits_of_queueing he
          (.row (u := { task with status := .ready, readyAt := some env.now }) hreach.mem hdecl)
          (fun _ _ => Or.inr (Or.inr ⟨hs, t, hreach, hid, haccepts'⟩))
          (fun _ h => by cases h)
      · intro r s hs hr
        rcases r with error | _
        · refine ⟨hs, ?_⟩
          rintro detail ⟨⟩
          refine ⟨t, hreach, ?_⟩
          rw [← hr detail rfl, ← engineFails_of_declared hdecl]
          exact engineFails_of_declared rfl
        · exact ih s hs

omit hb in
@[simp] theorem flag_piiDetectConfig (parameters : Config) :
    flag (piiDetectConfig parameters) "post_processing" = true := by
  unfold piiDetectConfig
  split <;> simp [flag, Dict.get?_cons, Dict.set, Json.truthy]

omit hb in
/-- The row saved for the first enrichment task is an enrichment. -/
theorem enrichment_of_inserted {job : JobModel} {models : List TaskModel} {s : World}
    (hmodels : models = (buildPostProcessingTasks env job).map (Task.toModel "input_bindings"))
    (hins : s.tasks.Insertable models) :
    ∀ t ∈ ((Effect.saveEnrichmentTasks models).apply s).tasks.rows,
      t.id = env.piiDetectId → isPostProcessingTask t ∧ t.status ≠ .completed := by
  intro t ht hid
  have hrow : (piiDetectTask env job.parameters).toModel "input_bindings" ∈
      ((Effect.saveEnrichmentTasks models).apply s).tasks.rows := by
    rw [Effect.rows_apply]
    simp only [Effect.newRows, if_pos hins]
    rw [hmodels]
    simp [buildPostProcessingTasks]
  rw [TaskTable.eq_of_id ht hrow hid]
  simp [isPostProcessingTask, Task.toModel, piiDetectTask, newTask]

omit hb in
/-- The tasks of the post-processor are pending enrichments. -/
theorem pending_enrichment {job : JobModel} {task : Task}
    (h : task ∈ buildPostProcessingTasks env job) :
    isPostProcessingTask (task.toModel "input_bindings") ∧ task.status = .pending := by
  rcases List.mem_cons.mp h with rfl | h
  · simp [isPostProcessingTask, Task.toModel, piiDetectTask, newTask]
  · unfold redactionTasks at h
    split at h
    · rw [List.mem_singleton.mp h]
      simp [isPostProcessingTask, Task.toModel, audioRedactTask, newTask, audioRedactConfig, flag,
        Dict.set, Dict.get?_cons, Json.truthy]
    · cases h

omit hb in
theorem enrichmentRow_of_inserted {job : JobModel} {s : World}
    (hins : s.tasks.Insertable
      ((buildPostProcessingTasks env job).map (Task.toModel "input_bindings"))) :
    ∀ stage ∈ (buildPostProcessingTasks env job).map (·.stage),
      EnrichmentRow ((Effect.saveEnrichmentTasks
        ((buildPostProcessingTasks env job).map (Task.toModel "input_bindings"))).apply s) stage
        fun status => status = .pending := by
  intro stage hstage
  obtain ⟨task, htask, rfl⟩ := List.mem_map.mp hstage
  obtain ⟨hpost, hpending⟩ := pending_enrichment htask
  refine ⟨task.toModel "input_bindings", ?_, rfl, hpost, hpending⟩
  rw [Effect.rows_apply]
  simp only [Effect.newRows, if_pos hins]
  exact List.mem_append_right _ (List.mem_map_of_mem htask)

omit hb in
/-- A pending row that may be marked as ready is not completed by that. -/
theorem EnrichmentRow.markReady {s : World} {stage : String} {id : Uuid} {now : Option Time}
    (h : EnrichmentRow s stage fun status => status = .pending) :
    EnrichmentRow ((Effect.markReady id now).apply s) stage fun status => status ≠ .completed := by
  obtain ⟨t, ht, hstage, hpost, hpending⟩ := h
  have hdecl := (Effect.markReady id now).declared_updateRow t
  refine ⟨(Effect.markReady id now).updateRow t, ?_, ?_, ?_, ?_⟩
  · rw [Effect.rows_apply]
    exact List.mem_append_left _ (List.mem_map_of_mem ht)
  · exact (TaskModel.stage_of_declared hdecl).trans hstage
  · exact (isPostProcessingTask_of_declared hdecl).trans hpost
  · simp only [Effect.updateRow]
    split <;> simp [hpending]

omit hb in
theorem Enriches.of_sameRows {s s' : World} {id : Uuid} (h : Enriches env b s id)
    (hs : SameRows s s') : Enriches env b s' id :=
  { h with terminal := hs.1.symm ▸ h.terminal, enrichment := hs.2.symm ▸ h.enrichment }

omit hb in
theorem Enriches.apply_markReady {s : World} {id taskId : Uuid} {now : Option Time}
    (h : Enriches env b s id) : Enriches env b ((Effect.markReady taskId now).apply s) id := by
  refine { h with enrichment := fun t ht hid => ?_ }
  obtain ⟨u, hu, rfl⟩ := List.mem_map.mp ht
  have hdecl := (Effect.markReady taskId now).declared_updateRow u
  obtain ⟨hpost, hopen⟩ := h.enrichment u hu ((TaskModel.id_of_declared hdecl).symm.trans hid)
  refine ⟨(isPostProcessingTask_of_declared hdecl).trans hpost, ?_⟩
  simp only [Effect.updateRow]
  split <;> simp [hopen]

theorem wp_schedulePostProcessing (job : JobModel) (s : World) (hs : s.job.status.terminal) :
    (schedulePostProcessing env job).wp (Permits env b s₀) (fun _ _ => True) s := by
  simp only [schedulePostProcessing, Program.wp_bind, Program.wp_perform]
  refine ⟨⟨hb, hs, job, rfl⟩, ?_⟩
  by_cases hins : s.tasks.Insertable
      ((buildPostProcessingTasks env job).map (Task.toModel "input_bindings"))
  swap
  · rw [if_neg hins]
    trivial
  rw [if_pos hins]
  have hfirst : Enriches env b ((Effect.saveEnrichmentTasks
      ((buildPostProcessingTasks env job).map (Task.toModel "input_bindings"))).apply s)
      env.piiDetectId :=
    { id_eq := rfl, completes := hb
      terminal := by
        simp only [Effect.apply, hins, dif_pos]
        exact hs
      enrichment := enrichment_of_inserted rfl hins }
  simp only [startPostProcessing, Program.wp_bind, wp_exec, wp_getWorld]
  have hmarked : Enriches env b ((Effect.setEnrichments
      ((buildPostProcessingTasks env job).map (·.stage))).apply _) env.piiDetectId :=
    hfirst.of_sameRows ⟨rfl, rfl⟩
  have hsaved : Saved ((Effect.saveEnrichmentTasks
      ((buildPostProcessingTasks env job).map (Task.toModel "input_bindings"))).apply s)
      ((piiDetectTask env job.parameters).toModel "input_bindings") := by
    apply saved_of_newRows
    rw [Effect.newRows, if_pos hins]
    exact List.mem_map_of_mem List.mem_cons_self
  have hrows := enrichmentRow_of_inserted hins
  have hready := (hrows "pii_detect" (by simp [buildPostProcessingTasks, piiDetectTask, newTask]))
  refine ⟨⟨hb, hrows⟩, Or.inr hmarked, trivial, ?_⟩
  refine wp_queueTask_of (I := fun s => Enriches env b s env.piiDetectId ∧
    Saved s ((piiDetectTask env job.parameters).toModel "input_bindings") ∧
      EnrichmentRow s "pii_detect" fun status => status ≠ .completed)
    ⟨hmarked.apply_markReady, (hsaved.apply _).apply _, EnrichmentRow.markReady hready⟩ ?_ ?_ ?_
  · intro s e hs he
    have hsame := sameRows_of_queueing he s
    refine ⟨hs.1.of_sameRows hsame, hs.2.1.apply e, ?_⟩
    rw [EnrichmentRow, hsame.2]
    exact hs.2.2
  · intro s e hs he _
    exact permits_of_queueing he (.enrichment job hs.2.1) (fun _ _ => Or.inr (Or.inl hs.1))
      (fun _ h => by cases h)
  · intro r s hs _
    rcases r with error | _
    · obtain ⟨t, ht, hstage, hpost, hstatus⟩ := hs.2.2
      exact ⟨⟨hb, t, ht, hstage, hpost, Or.inr hstatus⟩, trivial⟩
    · trivial

omit hb in
/-- A finished job completes, or fails because of a required task or of its transcript. -/
theorem jobOutcome_status (env : Env) (s : World) : (jobOutcome env s).status = .completed ∨
    (jobOutcome env s).status = .failed ∧ (anyFailed s.tasks.rows ∨
      ∃ detail, (jobOutcome env s).error = some (.assembly detail)) := by
  unfold jobOutcome
  split
  · rename_i hfailed
    exact Or.inr ⟨rfl, Or.inl hfailed⟩
  · split
    · exact Or.inl rfl
    · rename_i detail _
      exact Or.inr ⟨rfl, Or.inr ⟨detail, rfl⟩⟩

theorem wp_checkJobCompletion (s : World) (hs : s.job.status = s₀.job.status)
    (hlive : s.job.status ≠ .cancelling) :
    (checkJobCompletion env).wp (Permits env b s₀) (fun _ _ => True) s := by
  simp only [checkJobCompletion, Program.wp_bind, wp_selectTasks]
  refine ⟨trivial, ?_⟩
  split
  swap
  · trivial
  simp only [Program.wp_bind, wp_getWorld]
  refine ⟨trivial, ?_⟩
  by_cases hterm : s.job.status.terminal
  · rw [if_pos hterm]
    trivial
  rw [if_neg hterm]
  have hwrite : (writeTranscript (jobOutcome env s).transcript).wp (Permits env b s₀)
      (fun _ s' => SameRows s s') s := by
    cases (jobOutcome env s).transcript with
    | none => exact SameRows.refl s
    | some transcript => exact ⟨⟨hb, Or.inl (by simpa using hterm)⟩, SameRows.refl s⟩
  simp only [finaliseJob, Program.wp_bind, wp_exec]
  refine Program.wp_post hwrite fun _ s₁ hs₁ => ?_
  have hstatus := jobOutcome_status env s
  refine ⟨⟨hb, hs₁.1 ▸ hs, hs₁.1 ▸ hlive, by simpa [hs₁.1] using hterm, ?_⟩, ?_⟩
  · rw [hs₁.2]
    exact hstatus
  refine wp_announceEnd_permits (announces_endEvent _) fun s₂ hs₂ => ?_
  split
  · refine wp_schedulePostProcessing hb _ s₂ ?_
    rw [hs₂.1]
    rcases hstatus with h | ⟨h, _⟩ <;>
      simp [Effect.apply, Effect.updateJob, h, JobStatus.terminal]
  · trivial

theorem wp_continueJob (s : World) (hs : Settled b s₀ s) :
    (continueJob env).wp (Permits env b s₀) (fun _ _ => True) s := by
  simp only [continueJob, Program.wp_bind, wp_selectTasks, wp_getWorld]
  refine ⟨trivial, trivial, ?_⟩
  by_cases hcancel : s.job.status = .cancelling
  · rw [if_pos hcancel]
    simp only [checkJobCancellationComplete, Program.wp_bind, wp_exec, wp_getWorld]
    refine ⟨Or.inr ⟨hb, hcancel, rfl⟩, trivial, ?_⟩
    rw [if_pos (by exact hcancel)]
    simp only [Program.wp_bind, wp_selectTasks]
    refine ⟨trivial, ?_⟩
    split
    · trivial
    · simp only [Program.wp_bind, wp_exec]
      exact ⟨⟨Or.inl hb, hcancel⟩, wp_announceEnd_permits trivial fun _ _ => trivial⟩
  · rw [if_neg hcancel]
    simp only [Program.wp_bind]
    refine Program.wp_post (wp_scheduleDependents hb hs hcancel _ (fun _ h => h) s hs.job) ?_
    intro r s' hs'
    rcases r with (detail | _) | _
    · simp only [afterDependents, failJobOnQueue, Program.wp_bind, wp_exec]
      exact ⟨Or.inr ⟨hs'.1, hs'.2 detail rfl⟩, wp_announceEnd_permits trivial fun _ _ => trivial⟩
    · trivial
    · simp only [afterDependents, Program.wp_bind]
      refine Program.wp_post (wp_checkJobCompletion hb s' hs'.1 ?_) fun _ _ _ => trivial
      rw [hs'.1, ← hs.job]
      exact hcancel

/-- What recording an enrichment and the duration of the audio does in a world. -/
def recording (s : World) : Effect → Prop
  | .read | .setPiiResult .. | .setAudioDuration _ => True
  | .setEnrichment stage status =>
      EnrichmentRow s stage fun rowStatus => status = .completed ∨ rowStatus ≠ .completed
  | .putTranscript transcript =>
      ∃ patch, transcriptPatch s = some patch ∧ transcript = patch.transcript
  | _ => False

omit hb in
theorem Settled.recorded {s : World} (hs : Settled b s₀ s) {e : Effect} (h : recording s e) :
    Settled b s₀ (e.apply s) := by
  cases e <;> first | exact ⟨hs.job, hs.stream, hs.rows⟩ | exact h.elim

omit hb in
theorem wp_finishEnrichments (s : World) :
    finishEnrichments.wp recording (fun _ _ => True) s := by
  simp only [finishEnrichments, Program.wp_bind, wp_getWorld]
  refine ⟨trivial, ?_⟩
  split
  swap
  · trivial
  simp only [updateTranscriptWithPii, Program.wp_bind, wp_getWorld]
  refine ⟨trivial, ?_⟩
  unfold applyPatch
  split
  · trivial
  · rename_i patch hpatch
    exact ⟨⟨patch, hpatch, rfl⟩, trivial, trivial⟩

omit hb in
theorem wp_recordEnrichment {task : TaskModel} (status : TaskStatus) {s : World}
    (htask : Saved s task) :
    (recordEnrichment task status).wp recording (fun _ _ => True) s := by
  unfold recordEnrichment
  split
  swap
  · trivial
  rename_i hrecord
  simp only [Bool.and_eq_true, decide_eq_true_eq] at hrecord
  obtain ⟨t, ht, hdecl⟩ := htask
  have hconfig : isPostProcessingTask t = isPostProcessingTask task :=
    isPostProcessingTask_of_declared hdecl
  simp only [Program.wp_bind, wp_exec]
  refine ⟨⟨t, ht, TaskModel.stage_of_declared hdecl, hconfig.trans hrecord.1, Or.inl rfl⟩, ?_⟩
  exact wp_finishEnrichments _

omit hb in
theorem wp_updateAudioDuration (task : TaskModel) (s : World) :
    (updateAudioDuration task).wp recording (fun _ _ => True) s := by
  unfold updateAudioDuration
  split
  swap
  · trivial
  simp only [Program.wp_bind, wp_getWorld]
  refine ⟨trivial, ?_⟩
  split <;> simp [recording]

omit hb in
/-- The task's side effects leave the rows settled. -/
theorem wp_recording {A : Type} {p : Action A} {s : World} {G : World → Effect → Prop}
    {Q : A → World → Prop} (hp : p.wp recording (fun _ _ => True) s)
    (hs : Settled b s₀ s) (hG : ∀ s e, Settled b s₀ s → recording s e → G s e)
    (hQ : ∀ a s', Settled b s₀ s' → Q a s') : p.wp G Q s := by
  have h := Program.wp_keeps (I := Settled b s₀) hp hs fun s e hs he => hs.recorded he
  exact Program.wp_mono h (fun s e h => hG s e h.1 h.2) fun a s h => hQ a s h.1

theorem permits_of_recording {s : World} {e : Effect} (h : recording s e) :
    Permits env b s₀ s e := by
  cases e with
  | setEnrichment stage status => exact ⟨hb, h⟩
  | putTranscript transcript => exact ⟨hb, Or.inr h⟩
  | _ => trivial

omit hb in
/-- Everything after the task's row has been settled. -/
theorem wp_finishTask {G : World → Effect → Prop} {Q : Outcome → World → Prop}
    {task : TaskModel} (status : TaskStatus) {s : World} (hs : Settled b s₀ s)
    (htask : Saved s task) (hG : ∀ s e, Settled b s₀ s → recording s e → G s e)
    (hcontinue : ∀ s, Settled b s₀ s → (continueJob env).wp G Q s)
    (hraised : ∀ s, Q .raised s) : (finishTask env task status).wp G Q s := by
  simp only [finishTask, Program.wp_bind]
  refine wp_recording (wp_recordEnrichment status htask) hs hG fun _ s₁ hs₁ => ?_
  refine wp_recording (wp_updateAudioDuration task s₁) hs₁ hG fun outcome s₂ hs₂ => ?_
  cases outcome with
  | returned => exact hcontinue s₂ hs₂
  | raised => exact hraised s₂

end Completion

theorem settled_self (h : ∀ t ∈ s₀.tasks.rows, settledRow b t = t.status) : Settled b s₀ s₀ :=
  ⟨rfl, rfl, id, (List.map_id _).symm, fun t ht => ⟨rfl, (h t ht).symm⟩⟩

theorem settled_apply {e : Effect} (hjob : (e.apply s₀).job.status = s₀.job.status)
    (hstream : (e.apply s₀).stream = s₀.stream)
    (hrows : (e.apply s₀).tasks.rows = s₀.tasks.rows.map e.updateRow)
    (h : ∀ t ∈ s₀.tasks.rows, settledRow b t = (e.updateRow t).status) :
    Settled b s₀ (e.apply s₀) :=
  ⟨hjob, hstream, e.updateRow, hrows, fun t ht => ⟨e.declared_updateRow t, (h t ht).symm⟩⟩

/-- What a completion does before it looks at the whole job. -/
inductive Marks (env : Env) (b : Branch) (s₀ : World) : World → Effect → Prop
  | recording {s : World} {e : Effect} (hs : s = s₀ ∨ Settled b s₀ s) (h : recording s e) :
      Marks env b s₀ s e
  | complete {task : TaskModel} (hb : b = .settle task) (hopen : task.status ≠ .completed)
      (hkept : task.status ≠ .skipped) : Marks env b s₀ s₀ (.completeTask task.id env.now)
  | skip {task : TaskModel} (hb : b = .skip task) (error : String) (now : Option Time) :
      Marks env b s₀ s₀ (.skipTask task.id error now)

theorem wp_markEnrichmentFailed {s : World} {task : TaskModel} (hs : Settled (.skip task) s₀ s)
    (hmem : task ∈ s₀.tasks.rows) :
    (markEnrichmentFailed task).wp recording (fun _ _ => True) s := by
  unfold markEnrichmentFailed
  split
  swap
  · trivial
  rename_i hpost
  obtain ⟨t, ht, hdecl, hstatus⟩ := hs.new hmem
  refine ⟨⟨t, ht, TaskModel.stage_of_declared hdecl, ?_, Or.inr ?_⟩, trivial⟩
  · exact (isPostProcessingTask_of_declared hdecl).trans hpost
  · simp [hstatus, settledRow]

section Finish

variable {Q : Outcome → World → Prop} (hG : ∀ s e, Marks env b s₀ s e → G s e)
  (hfinish : ∀ task status s, Settled b s₀ s → Saved s task → (finishTask env task status).wp G Q s)

include hG hfinish

/-- The completion side effects of a task that is completed or skipped. -/
theorem wp_handleTaskCompleted_settled {s : World} {task : TaskModel} (hs : Settled b s₀ s)
    (htask : s.tasks.get? task.id = some task)
    (hdone : task.status = .completed ∨ task.status = .skipped) :
    (handleTaskCompleted env task.id).wp G Q s := by
  have hsettle : settleTask env task = return task.status := by
    rcases hdone with h | h <;> simp [settleTask, h]
  simp only [handleTaskCompleted, Program.wp_bind, wp_getTask, htask, hsettle, Program.pure_eq,
    Program.wp_done]
  have hsaved : Saved s task := ⟨task, (TaskTable.get?_eq_some.mp htask).1, rfl⟩
  exact ⟨hG _ _ (.recording (Or.inr hs) trivial), hfinish task task.status s hs hsaved⟩

theorem wp_handleTaskCompleted {task : TaskModel} (hb : b = .settle task)
    (htask : s₀.tasks.get? task.id = some task) :
    (handleTaskCompleted env task.id).wp G Q s₀ := by
  subst hb
  have hmem := (TaskTable.get?_eq_some.mp htask).1
  have hself : ∀ t ∈ s₀.tasks.rows, t.id = task.id → t = task := fun t ht h =>
    TaskTable.eq_of_id ht hmem h
  by_cases hdone : task.status = .completed ∨ task.status = .skipped
  · refine wp_handleTaskCompleted_settled hG hfinish (settled_self fun t ht => ?_) htask hdone
    by_cases hid : t.id = task.id
    · rcases hdone with h | h <;> simp [settledRow, h, hself t ht hid]
    · simp [settledRow, hid]
  · rw [not_or] at hdone
    have hsettle : settleTask env task = (do
        exec (.completeTask task.id env.now)
        return TaskStatus.completed : Action TaskStatus) := by
      unfold settleTask
      cases hstatus : task.status <;> simp_all
    have hs : Settled (.settle task) s₀ ((Effect.completeTask task.id env.now).apply s₀) := by
      refine settled_apply rfl rfl rfl fun t _ => ?_
      by_cases hid : t.id = task.id
      · cases hstatus : task.status <;> simp_all [settledRow, Effect.updateRow]
      · simp [settledRow, Effect.updateRow, hid]
    simp only [handleTaskCompleted, Program.wp_bind, wp_getTask, htask, hsettle, wp_exec,
      Program.pure_eq, Program.wp_done]
    obtain ⟨t, ht, hdecl, _⟩ := hs.new hmem
    exact ⟨hG _ _ (.recording (Or.inl rfl) trivial), hG _ _ (.complete rfl hdone.1 hdone.2),
      hfinish task .completed _ hs ⟨t, ht, hdecl⟩⟩

theorem wp_skipped {task : TaskModel} (hb : b = .skip task) (hmem : task ∈ s₀.tasks.rows)
    (error : String) (now : Option Time) (marks : Action Unit)
    (hmarks : ∀ s, Settled b s₀ s → marks.wp recording (fun _ _ => True) s) :
    (do
      exec (.skipTask task.id error now)
      marks
      handleTaskCompleted env task.id).wp G Q s₀ := by
  subst hb
  have hs : Settled (.skip task) s₀ ((Effect.skipTask task.id error now).apply s₀) := by
    refine settled_apply rfl rfl rfl fun t _ => ?_
    by_cases hid : t.id = task.id <;> simp [settledRow, Effect.updateRow, hid]
  simp only [Program.wp_bind, wp_exec]
  refine ⟨hG _ _ (.skip rfl error now), ?_⟩
  refine wp_recording (hmarks _ hs) hs (fun s e hs h => hG s e (.recording (Or.inr hs) h))
    fun _ s hs => ?_
  obtain ⟨t, ht, hdecl, hstatus⟩ := hs.new hmem
  have hid : t.id = task.id := TaskModel.id_of_declared hdecl
  rw [← hid]
  refine wp_handleTaskCompleted_settled hG hfinish hs (TaskTable.get?_self ht) (Or.inr ?_)
  simpa [settledRow] using hstatus

/-- An event whose branch completes or skips a task does the marks of that branch, and goes
on with the completion side effects in a settled world. -/
theorem wp_completion {event : Event} (hb : b = branch s₀ event) (hsome : b.completion.isSome) :
    (dispatch env event).wp G Q s₀ := by
  have hread : G s₀ .read := hG _ _ (.recording (Or.inl rfl) trivial)
  cases event with
  | taskCompleted id =>
      rcases htask : s₀.tasks.get? id with _ | task
      · simp [hb, branch, htask, Branch.completion] at hsome
      · obtain rfl := (TaskTable.get?_eq_some.mp htask).2
        exact wp_handleTaskCompleted hG hfinish (by simp [hb, branch, htask]) htask
  | taskFailed id error =>
      simp only [dispatch, handleTaskFailed, Program.wp_bind, wp_getTask]
      refine ⟨hread, ?_⟩
      rcases htask : s₀.tasks.get? id with _ | task
      · simp [hb, branch, htask, Branch.completion] at hsome
      · obtain ⟨hmem, rfl⟩ := TaskTable.get?_eq_some.mp htask
        have hb' : b = failedBranch task error := by simp [hb, branch, htask]
        dsimp only
        cases hstatus : task.status with
        | skipped =>
            exact wp_handleTaskCompleted hG hfinish (by simp [hb', failedBranch, hstatus]) htask
        | running =>
            unfold failRunningTask
            by_cases hretry : retries task error
            · simp [hb', failedBranch, hstatus, hretry, Branch.completion] at hsome
            rw [if_neg hretry]
            by_cases hreq : task.required
            · simp [hb', failedBranch, hstatus, hretry, hreq, Branch.completion] at hsome
            rw [if_neg hreq]
            have hskip : b = .skip task := by simp [hb', failedBranch, hstatus, hretry, hreq]
            exact wp_skipped hG hfinish hskip hmem error none _ fun s hs =>
              wp_markEnrichmentFailed (hskip ▸ hs) hmem
        | pending | ready | completed | failed | cancelled =>
            simp [hb', failedBranch, hstatus, Branch.completion] at hsome
  | taskWaitTimeout id error =>
      simp only [dispatch, handleTaskWaitTimeout, Program.wp_bind, wp_getTask]
      refine ⟨hread, ?_⟩
      rcases htask : s₀.tasks.get? id with _ | task
      · simp [hb, branch, htask, Branch.completion] at hsome
      · obtain ⟨hmem, rfl⟩ := TaskTable.get?_eq_some.mp htask
        have hb' : b = timeoutBranch task := by simp [hb, branch, htask]
        dsimp only
        cases hstatus : task.status with
        | skipped =>
            exact wp_handleTaskCompleted hG hfinish (by simp [hb', timeoutBranch, hstatus]) htask
        | ready | pending =>
            by_cases hreq : task.required
            · simp [hb', timeoutBranch, hstatus, hreq, Branch.completion] at hsome
            have hskip : b = .skip task := by simp [hb', timeoutBranch, hstatus, hreq]
            simp only [hreq]
            exact wp_skipped hG hfinish hskip hmem error (some env.now) (return ()) fun _ _ => trivial
        | running | completed | failed | cancelled =>
            simp [hb', timeoutBranch, hstatus, Branch.completion] at hsome
  | jobCreated =>
      simp only [hb, branch] at hsome
      split at hsome <;> try split at hsome
      all_goals cases hsome
  | taskStarted _ | jobCancelRequested | jobCompleted | jobFailed _ | jobCancelled
  | engineNeeded _ =>
      rw [hb] at hsome
      cases hsome

end Finish

theorem permits_of_marks {s : World} {e : Effect} (hb : b.completion.isSome)
    (h : Marks env b s₀ s e) : Permits env b s₀ s e := by
  cases h with
  | recording _ h => exact permits_of_recording hb h
  | complete h hopen hkept => exact ⟨rfl, _, h, rfl, hopen, hkept⟩
  | skip h error now => exact ⟨rfl, _, h, rfl⟩

theorem wp_ensureJobFailed {s : World} {task t : TaskModel} (error : ErrorText)
    (hjob : s.job = s₀.job) (hfails : FailsJob env b t) (hid : task.id = t.id) :
    (ensureJobFailedSideEffects env task error).wp (Permits env b s₀) (fun _ _ => True) s := by
  have hmark : (markJobFailed env task error).wp (Permits env b s₀) (fun _ _ => True) s := by
    simp only [markJobFailed, Program.wp_bind, wp_getWorld]
    refine ⟨trivial, ?_⟩
    split
    · trivial
    · trivial
    all_goals
      rename_i hstatus
      refine ⟨⟨hjob, ?_, ?_, t, hfails, hid⟩, trivial⟩ <;> simp [hstatus]
  simp only [ensureJobFailedSideEffects, Program.wp_bind]
  refine Program.wp_post hmark fun _ _ _ => wp_announceEnd_permits trivial fun _ _ => trivial

theorem wp_ensureRetryEnqueued {s : World} {task t : TaskModel} (hmem : t ∈ s₀.tasks.rows)
    (hjob : s.job = s₀.job) (hkeys : s₀.retryKeys ⊆ s.retryKeys)
    (hdecl : task.declared = t.declared)
    (hb : b = .retry t ∧ task.retries = t.retries + 1 ∨ b = .requeue t ∧ task.retries = t.retries) :
    (ensureRetryEnqueued env task).wp (Permits env b s₀) (fun _ _ => True) s := by
  have hid : task.id = t.id := TaskModel.id_of_declared hdecl
  simp only [ensureRetryEnqueued, Program.wp_bind, wp_selectTasks, wp_getWorld]
  refine ⟨trivial, trivial, ?_⟩
  refine wp_queueTask_of (I := fun s => s.job = s₀.job ∧ s₀.retryKeys ⊆ s.retryKeys)
    ⟨hjob, hkeys⟩ ?_ ?_ ?_
  · intro s e hs he
    rw [(sameRows_of_queueing he s).1]
    exact ⟨hs.1, fun key hkey => retryKeys_of_queueing he s (hs.2 hkey)⟩
  · intro s e hs he haccepts
    have haccepts' : accepts env (Task.modelValidate t) := by
      rw [← accepts_of_declared hdecl]
      exact haccepts
    refine permits_of_queueing he (.row hmem hdecl) (fun h => by cases h) ?_
    rintro n ⟨rfl⟩ _
    exact ⟨hs.1, hs.2, t, hid, haccepts', hb⟩
  · intro r s hs hr
    rcases r with (detail | _) | _
    · have hengine : engineFails env (Task.modelValidate t) := by
        rw [← engineFails_of_declared hdecl]
        exact hr detail rfl
      have hretry : b = .retry t ∨ b = .requeue t := hb.imp And.left And.left
      simp only [Program.wp_bind, wp_exec]
      refine ⟨⟨hs.1, t, hid, Or.inr ⟨hretry, hengine⟩⟩, ?_⟩
      exact wp_ensureJobFailed _ hs.1 (Or.inr (Or.inr ⟨hretry, hengine⟩)) hid
    · trivial
    · trivial

section Attempts

variable (hopen : b.completion = none)

include hopen

theorem wp_failRunningTask {task : TaskModel} {error : String} (hmem : task ∈ s₀.tasks.rows)
    (hstatus : task.status = .running) (hb : b = failedBranch task error) :
    (failRunningTask env task error).wp (Permits env b s₀) (fun _ _ => True) s₀ := by
  simp only [failedBranch, hstatus] at hb
  unfold failRunningTask
  by_cases hretry : retries task error
  · rw [if_pos hretry] at hb ⊢
    simp only [Program.wp_bind, wp_exec]
    exact ⟨⟨rfl, task, hb, rfl⟩,
      wp_ensureRetryEnqueued hmem rfl (fun _ h => h) rfl (Or.inl ⟨hb, rfl⟩)⟩
  rw [if_neg hretry] at hb ⊢
  by_cases hreq : task.required
  · rw [if_pos hreq] at hb ⊢
    simp only [Program.wp_bind, wp_exec]
    exact ⟨⟨rfl, task, rfl, Or.inl hb⟩, wp_ensureJobFailed _ rfl (Or.inl hb) rfl⟩
  · rw [if_neg hreq] at hb
    simp [hb, Branch.completion] at hopen

theorem wp_handleTaskFailed (id : Uuid) (error : String)
    (hb : b = branch s₀ (.taskFailed id error)) :
    (handleTaskFailed env id error).wp (Permits env b s₀) (fun _ _ => True) s₀ := by
  simp only [handleTaskFailed, Program.wp_bind, wp_getTask]
  refine ⟨trivial, ?_⟩
  rcases htask : s₀.tasks.get? id with _ | task
  · trivial
  · obtain ⟨hmem, rfl⟩ := TaskTable.get?_eq_some.mp htask
    have hb' : b = failedBranch task error := by simp [hb, branch, htask]
    dsimp only
    cases hstatus : task.status with
    | skipped => simp [hb', failedBranch, hstatus, Branch.completion] at hopen
    | failed =>
        exact wp_ensureJobFailed _ rfl
          (Or.inr (Or.inl (by simp [hb', failedBranch, hstatus]))) rfl
    | ready =>
        exact wp_ensureRetryEnqueued hmem rfl (fun _ h => h) rfl
          (Or.inr ⟨by simp [hb', failedBranch, hstatus], rfl⟩)
    | running => exact wp_failRunningTask hopen hmem hstatus hb'
    | pending | completed | cancelled => trivial

theorem wp_handleTaskWaitTimeout (id : Uuid) (error : String)
    (hb : b = branch s₀ (.taskWaitTimeout id error)) :
    (handleTaskWaitTimeout env id error).wp (Permits env b s₀) (fun _ _ => True) s₀ := by
  simp only [handleTaskWaitTimeout, Program.wp_bind, wp_getTask]
  refine ⟨trivial, ?_⟩
  rcases htask : s₀.tasks.get? id with _ | task
  · trivial
  · obtain rfl := (TaskTable.get?_eq_some.mp htask).2
    have hb' : b = timeoutBranch task := by simp [hb, branch, htask]
    dsimp only
    cases hstatus : task.status with
    | skipped => simp [hb', timeoutBranch, hstatus, Branch.completion] at hopen
    | failed =>
        exact wp_ensureJobFailed _ rfl
          (Or.inr (Or.inl (by simp [hb', timeoutBranch, hstatus]))) rfl
    | ready | pending =>
        simp only [timeoutBranch, hstatus] at hb'
        by_cases hreq : task.required
        · rw [if_pos hreq] at hb'
          simp only [hreq, if_true, Program.wp_bind, wp_exec]
          exact ⟨⟨rfl, task, rfl, Or.inl hb'⟩, wp_ensureJobFailed _ rfl (Or.inl hb') rfl⟩
        · rw [if_neg hreq] at hb'
          simp [hb', Branch.completion] at hopen
    | running | completed | cancelled => trivial

end Attempts

theorem wp_handleJobCreated (hb : b = branch s₀ .jobCreated) :
    (handleJobCreated env).wp (Permits env b s₀) (fun _ _ => True) s₀ := by
  simp only [handleJobCreated, Program.wp_bind, wp_getWorld]
  refine ⟨trivial, ?_⟩
  cases hstatus : s₀.job.status with
  | cancelling | cancelled | running => trivial
  | pending | completed | failed =>
      by_cases hrows : s₀.tasks.rows = []
      · exact wp_buildJob (by simp [hb, branch, hstatus, hrows]) hrows
      · obtain ⟨t, rest, hcons⟩ := List.exists_cons_of_ne_nil hrows
        simp only [buildJob, Program.wp_bind, wp_selectTasks, hcons]
        exact ⟨trivial, trivial⟩

theorem wp_handleJobCancelRequested (hb : b = .cancel) :
    (handleJobCancelRequested env).wp (Permits env b s₀) (fun _ _ => True) s₀ := by
  simp only [handleJobCancelRequested, checkJobCancellationComplete, Program.wp_bind, wp_exec,
    wp_selectTasks, wp_getWorld]
  refine ⟨hb, trivial, Or.inl ⟨hb, rfl⟩, trivial, ?_⟩
  split
  · rename_i hcancel
    simp only [Program.wp_bind, wp_selectTasks]
    refine ⟨trivial, ?_⟩
    split
    · trivial
    · simp only [Program.wp_bind, wp_exec]
      exact ⟨⟨Or.inr hb, hcancel⟩, wp_announceEnd_permits trivial fun _ _ => trivial⟩
  · trivial

/-- A handler does only what its branch permits. -/
theorem wp_dispatch (env : Env) (event : Event) (s : World) :
    (dispatch env event).wp (Permits env (branch s event) s) (fun _ _ => True) s := by
  rcases hopen : (branch s event).completion with _ | task
  swap
  · have hsome : (branch s event).completion.isSome := by simp [hopen]
    exact wp_completion (fun _ _ => permits_of_marks hsome) (fun task status s₁ hs htask =>
      wp_finishTask status hs htask (fun _ _ _ => permits_of_recording hsome)
        (wp_continueJob hsome) fun _ => trivial) rfl hsome
  cases event with
  | jobCreated => exact wp_handleJobCreated rfl
  | taskStarted id => exact ⟨rfl, trivial⟩
  | taskCompleted id =>
      rcases htask : s.tasks.get? id with _ | task
      · simp [dispatch, handleTaskCompleted, htask, Permits]
      · simp [branch, htask, Branch.completion] at hopen
  | taskFailed id error => exact wp_handleTaskFailed hopen id error rfl
  | taskWaitTimeout id error => exact wp_handleTaskWaitTimeout hopen id error rfl
  | jobCancelRequested => exact wp_handleJobCancelRequested rfl
  | jobCompleted | jobFailed _ | jobCancelled | engineNeeded _ => trivial

end Dalston.Orchestrator
