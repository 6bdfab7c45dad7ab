import Dalston.Orchestrator.Deliveries
import Dalston.Orchestrator.WaitingTasks
import Dalston.Orchestrator.Writers

/-!
# Timeouts of waiting tasks

No effect takes a block off a task, so a block that is set at the right moment
settles the task: engines that come later leave it alone, and its timeout ends
it. The block is set at the right moment when the task still waits and no engine
has begun it, and the timeout ends the task when no handler moves the task in
between. In runs that keep to this, no engine begins a task that has been timed
out, none has begun one that is timed out later, and no blocked task is left
behind.
-/

namespace Dalston.Orchestrator.WaitingTasks

open Foundation Model

/-- What handlers never do: block a task, announce a timeout, or remove a marker. -/
def Plain : Effect → Prop
  | .blockTask .. | .clearWaitingTask _ | .publish (.taskWaitTimeout ..) => False
  | .setTaskMetadata _ metadata => metadata.blockedReason = none
  | _ => True

section Handlers

theorem plain_queueTask {env : Env} {task : Task} {responses : Config}
    {audio : Option AudioMetadata} {key : Option Nat} :
    (queueTask env task responses audio key).Only Plain := by
  simp only [queueTask]
  split
  · exact Program.only_done _
  rename_i waiting _
  refine Program.only_bind ?announce fun _ => ?_
  case announce =>
    cases waiting with
    | true => exact only_exec trivial
    | false => exact Program.only_done _
  refine Program.only_bind (only_exec rfl) fun _ => ?_
  refine Program.only_bind ?register fun _ => ?_
  case register =>
    cases waiting with
    | true => exact only_exec trivial
    | false => exact Program.only_done _
  refine Program.only_bind (only_getWorld trivial) fun w => ?_
  unfold dispatchRequest
  split
  · exact Program.only_done _
  refine Program.only_bind (only_exec trivial) fun _ => ?_
  refine Program.only_bind (only_exec trivial) fun _ => ?_
  refine Program.only_bind ?_ fun _ => Program.only_done _
  cases key with
  | none => exact Program.only_perform_bind trivial fun _ => only_exec trivial
  | some retries =>
      refine Program.only_perform_bind trivial fun before => ?_
      split
      · exact Program.only_done _
      · exact only_exec trivial

theorem plain_announceEnd {event : Event} (h : Plain (.publish event)) :
    (announceEnd event).Only Plain := by
  refine Program.only_bind (Program.only_perform_bind trivial fun before => ?_) fun _ =>
    only_exec h
  split
  · exact Program.only_done _
  refine Program.only_perform_bind trivial fun before => ?_
  split
  · exact only_exec trivial
  · exact Program.only_done _

theorem plain_failJobOnQueue {env : Env} {detail : Config} :
    (failJobOnQueue env detail).Only Plain :=
  Program.only_bind (only_exec trivial) fun _ => plain_announceEnd trivial

theorem plain_queueRoots {env : Env} {audio : Option AudioMetadata} {tasks : List Task} :
    (queueRoots env audio tasks).Only Plain := by
  induction tasks with
  | nil => exact Program.only_done _
  | cons task rest ih =>
      refine Program.only_bind (only_exec trivial) fun _ => ?_
      refine Program.only_bind (plain_queueTask) fun r => ?_
      split
      · exact ih
      · exact Program.only_bind (plain_failJobOnQueue) fun _ => Program.only_done _
      · exact Program.only_done _

theorem plain_handleJobCreated {env : Env} : (handleJobCreated env).Only Plain := by
  refine Program.only_bind (only_getWorld trivial) fun w => ?_
  split
  any_goals exact Program.only_done _
  all_goals
    refine Program.only_bind (Program.only_bind (only_getWorld trivial) fun _ =>
      Program.only_done _) fun tasks => ?_
    split
    · exact Program.only_done _
    split
    · exact Program.only_bind (Program.only_bind (only_exec trivial) fun _ =>
        plain_announceEnd trivial) fun _ => Program.only_done _
    · exact Program.only_done _
    refine Program.only_perform_bind trivial fun before => ?_
    split
    · exact plain_queueRoots
    split
    · exact Program.only_done _
    · exact Program.only_done _

theorem plain_schedulePostProcessing {env : Env} {job : JobModel} :
    (schedulePostProcessing env job).Only Plain := by
  refine Program.only_perform_bind trivial fun before => ?_
  split
  swap
  · exact Program.only_done _
  refine Program.only_bind (only_exec trivial) fun _ => ?_
  refine Program.only_bind (only_exec trivial) fun _ => ?_
  refine Program.only_bind (only_getWorld trivial) fun w => ?_
  refine Program.only_bind (plain_queueTask) fun r => ?_
  cases r with
  | ok _ => exact Program.only_done _
  | error _ => exact only_exec trivial

theorem plain_endEvent (outcome : JobOutcome) : Plain (.publish (endEvent outcome)) := by
  unfold endEvent
  split <;> trivial

theorem plain_checkJobCompletion {env : Env} : (checkJobCompletion env).Only Plain := by
  refine Program.only_bind (Program.only_bind (only_getWorld trivial) fun _ =>
    Program.only_done _) fun tasks => ?_
  split
  swap
  · exact Program.only_done _
  refine Program.only_bind (only_getWorld trivial) fun w => ?_
  split
  · exact Program.only_done _
  refine Program.only_bind ?transcript fun _ => ?_
  case transcript =>
    cases (jobOutcome env w).transcript with
    | none => exact Program.only_done _
    | some _ => exact only_exec trivial
  refine Program.only_bind (only_exec trivial) fun _ => ?_
  refine Program.only_bind (plain_announceEnd (plain_endEvent _)) fun _ => ?_
  split
  · exact plain_schedulePostProcessing
  · exact Program.only_done _

theorem plain_checkJobCancellationComplete {env : Env} :
    (checkJobCancellationComplete env).Only Plain := by
  refine Program.only_bind (only_getWorld trivial) fun w => ?_
  split
  swap
  · exact Program.only_done _
  refine Program.only_bind (Program.only_bind (only_getWorld trivial) fun _ =>
    Program.only_done _) fun tasks => ?_
  split
  · exact Program.only_done _
  · exact Program.only_bind (only_exec trivial) fun _ => plain_announceEnd trivial

theorem plain_scheduleDependents {env : Env} {tasks rest : List TaskModel} :
    (scheduleDependents env tasks rest).Only Plain := by
  induction rest with
  | nil => exact Program.only_done _
  | cons task rest ih =>
      unfold scheduleDependents
      split
      swap
      · exact ih
      refine Program.only_bind (Program.only_perform_bind trivial fun before => ?_) fun r => ?_
      · split
        · exact Program.only_bind (only_getWorld trivial) fun w => plain_queueTask
        · exact Program.only_done _
      · cases r with
        | ok _ => exact ih
        | error _ => exact Program.only_done _

theorem plain_continueJob {env : Env} : (continueJob env).Only Plain := by
  refine Program.only_bind (Program.only_bind (only_getWorld trivial) fun _ =>
    Program.only_done _) fun tasks => ?_
  refine Program.only_bind (only_getWorld trivial) fun w => ?_
  split
  · refine Program.only_bind (only_exec trivial) fun _ => ?_
    exact Program.only_bind (plain_checkJobCancellationComplete) fun _ => Program.only_done _
  refine Program.only_bind (plain_scheduleDependents) fun r => ?_
  unfold afterDependents
  split
  · exact Program.only_bind (plain_checkJobCompletion) fun _ => Program.only_done _
  · exact Program.only_bind (plain_failJobOnQueue) fun _ => Program.only_done _
  · exact Program.only_done _

theorem plain_recordEnrichment {task : TaskModel} {status : TaskStatus} :
    (recordEnrichment task status).Only Plain := by
  unfold recordEnrichment
  split
  swap
  · exact Program.only_done _
  refine Program.only_bind (only_exec trivial) fun _ => ?_
  refine Program.only_bind (only_getWorld trivial) fun w => ?_
  split
  swap
  · exact Program.only_done _
  refine Program.only_bind (only_getWorld trivial) fun w => ?_
  cases transcriptPatch w with
  | none => exact Program.only_done _
  | some patch => exact Program.only_bind (only_exec trivial) fun _ => only_exec trivial

theorem plain_handleTaskCompleted {env : Env} {taskId : Uuid} :
    (handleTaskCompleted env taskId).Only Plain := by
  refine Program.only_bind (only_getTask trivial _) fun task => ?_
  cases task with
  | none => exact Program.only_done _
  | some task =>
      refine Program.only_bind ?settle fun status => ?_
      case settle =>
        unfold settleTask
        split
        any_goals exact Program.only_done _
        all_goals exact Program.only_bind (only_exec trivial) fun _ => Program.only_done _
      refine Program.only_bind (plain_recordEnrichment) fun _ => ?_
      refine Program.only_bind ?duration fun r => ?_
      case duration =>
        unfold updateAudioDuration
        split
        swap
        · exact Program.only_done _
        refine Program.only_bind (only_getWorld trivial) fun w => ?_
        split
        any_goals exact Program.only_done _
        exact Program.only_bind (only_exec trivial) fun _ => Program.only_done _
      cases r with
      | returned => exact plain_continueJob
      | raised => exact Program.only_done _

theorem plain_ensureJobFailedSideEffects {env : Env} {task : TaskModel} {error : ErrorText} :
    (ensureJobFailedSideEffects env task error).Only Plain := by
  refine Program.only_bind ?_ fun _ =>
    Program.only_bind (plain_announceEnd trivial) fun _ => Program.only_done _
  refine Program.only_bind (only_getWorld trivial) fun w => ?_
  split
  any_goals exact Program.only_done _
  all_goals exact Program.only_bind (only_exec trivial) fun _ => Program.only_done _

theorem plain_ensureRetryEnqueued {env : Env} {task : TaskModel} :
    (ensureRetryEnqueued env task).Only Plain := by
  refine Program.only_bind (Program.only_bind (only_getWorld trivial) fun _ =>
    Program.only_done _) fun tasks => ?_
  refine Program.only_bind (only_getWorld trivial) fun w => ?_
  refine Program.only_bind (plain_queueTask) fun r => ?_
  split
  · exact Program.only_done _
  · exact Program.only_bind (only_exec trivial) fun _ => plain_ensureJobFailedSideEffects
  · exact Program.only_done _

theorem plain_failRunningTask {env : Env} {task : TaskModel} {error : String} :
    (failRunningTask env task error).Only Plain := by
  unfold failRunningTask
  split
  · exact Program.only_bind (only_exec trivial) fun _ => plain_ensureRetryEnqueued
  split
  · exact Program.only_bind (only_exec trivial) fun _ => plain_ensureJobFailedSideEffects
  refine Program.only_bind (only_exec trivial) fun _ => ?_
  refine Program.only_bind ?_ fun _ => plain_handleTaskCompleted
  unfold markEnrichmentFailed
  split
  · exact only_exec trivial
  · exact Program.only_done _

theorem plain_handleTaskFailed {env : Env} {taskId : Uuid} {error : String} :
    (handleTaskFailed env taskId error).Only Plain := by
  refine Program.only_bind (only_getTask trivial _) fun task => ?_
  cases task with
  | none => exact Program.only_done _
  | some task =>
      dsimp only
      split
      · exact plain_handleTaskCompleted
      · exact plain_ensureJobFailedSideEffects
      · exact plain_ensureRetryEnqueued
      · exact plain_failRunningTask
      all_goals exact Program.only_done _

theorem plain_handleTaskWaitTimeout {env : Env} {taskId : Uuid} {error : String} :
    (handleTaskWaitTimeout env taskId error).Only Plain := by
  refine Program.only_bind (only_getTask trivial _) fun task => ?_
  cases task with
  | none => exact Program.only_done _
  | some task =>
      dsimp only
      split
      · exact plain_handleTaskCompleted
      · exact plain_ensureJobFailedSideEffects
      any_goals exact Program.only_done _
      all_goals
        split
        · exact Program.only_bind (only_exec trivial) fun _ =>
            plain_ensureJobFailedSideEffects
        · exact Program.only_bind (only_exec trivial) fun _ => plain_handleTaskCompleted

/-- Whatever the reads of a handler return, it performs plain effects. -/
theorem plain_dispatch (env : Env) (event : Event) : (dispatch env event).Only Plain := by
  cases event with
  | jobCreated => exact plain_handleJobCreated
  | taskStarted taskId => exact Program.only_bind (only_exec trivial) fun _ => Program.only_done _
  | taskCompleted taskId => exact plain_handleTaskCompleted
  | taskFailed taskId error => exact plain_handleTaskFailed
  | taskWaitTimeout taskId error => exact plain_handleTaskWaitTimeout
  | jobCancelRequested =>
      refine Program.only_bind (only_exec trivial) fun _ => ?_
      refine Program.only_bind (Program.only_bind (only_getWorld trivial) fun _ =>
        Program.only_done _) fun tasks => ?_
      refine Program.only_bind (only_exec trivial) fun _ => ?_
      exact Program.only_bind (plain_checkJobCancellationComplete) fun _ => Program.only_done _
  | jobCompleted | jobFailed _ | jobCancelled | engineNeeded _ => exact Program.only_done _

end Handlers

section Worlds

variable {w : World} {e : Effect} {id : Uuid}

/-- A block is set on the task. -/
def Blocked (w : World) (id : Uuid) : Prop := (w.metadata id).any isBlocked = true

/-- A timeout of the task has been published. -/
def Announced (w : World) (id : Uuid) : Prop := ∃ error, .taskWaitTimeout id error ∈ w.published

/-- The task is marked as waiting, so the scanner looks at it. -/
def Waiting (w : World) (id : Uuid) : Prop :=
  id ∈ w.waitingTasks ∧ (w.metadata id).any (·.waitingForEngine) = true

theorem unblocked_iff : unblocked w id = true ↔ (w.metadata id).isSome ∧ ¬ Blocked w id := by
  rw [unblocked, Blocked]
  cases w.metadata id <;> simp

/-- A field that a modification of the metadata keeps set. -/
theorem any_modifyMetadata {f : TaskMetadata → TaskMetadata} {p : TaskMetadata → Bool}
    {id' : Uuid} (h : (w.metadata id).any p = true) (hf : ∀ m, p m = true → p (f m) = true) :
    ((Effect.modifyMetadata id' f w).metadata id).any p = true := by
  simp only [Effect.modifyMetadata, Function.update_apply]
  split
  · rename_i heq
    rw [← heq]
    cases hm : w.metadata id with
    | none => simp [hm] at h
    | some m => exact hf m (by simpa [hm] using h)
  · exact h

/-- What a modification of the metadata shows was there before. -/
theorem any_of_modifyMetadata {f : TaskMetadata → TaskMetadata} {p : TaskMetadata → Bool}
    {id' : Uuid} (h : ((Effect.modifyMetadata id' f w).metadata id).any p = true)
    (hf : ∀ m, p (f m) = true → p m = true) :
    (w.metadata id).any p = true := by
  simp only [Effect.modifyMetadata, Function.update_apply] at h
  split at h
  · rename_i heq
    rw [← heq] at h
    cases hm : w.metadata id with
    | none => simp [hm] at h
    | some m =>
        rw [hm] at h
        exact hf m h
  · exact h

/-- The fields that new metadata of a task leaves alone or keeps set. -/
theorem any_setTaskMetadata {p : TaskMetadata → Bool} {id' : Uuid} {m : TaskMetadata}
    (hp : ∀ m₀, p m₀ = true → p (TaskMetadata.update (some m₀) m) = true)
    (h : (w.metadata id).any p = true) :
    (((Effect.setTaskMetadata id' m).apply w).metadata id).any p = true := by
  simp only [Effect.apply, Function.update_apply]
  split
  · rename_i heq
    rw [← heq]
    cases hm : w.metadata id with
    | none => simp [hm] at h
    | some m₀ => exact hp m₀ (by simpa [hm] using h)
  · exact h

/-- No plain effect takes a block off a task. -/
theorem Blocked.apply (h : Blocked w id) (he : Plain e) : Blocked (e.apply w) id := by
  cases e with
  | blockTask => exact he.elim
  | clearWaitingTask => exact he.elim
  | setTaskMetadata => exact any_setTaskMetadata (fun _ hm => hm) h
  | setRequestMetadata => exact any_modifyMetadata h fun _ hm => hm
  | setStreamMessageId => exact any_modifyMetadata h fun _ hm => hm
  | saveTasks | saveEnrichmentTasks | addTaskOnce =>
      simp only [Effect.apply]
      split <;> exact h
  | _ => exact h

/-- No plain effect blocks a task. -/
theorem blocked_of_apply (h : Blocked (e.apply w) id) (he : Plain e) : Blocked w id := by
  cases e with
  | blockTask => exact he.elim
  | clearWaitingTask => exact he.elim
  | setTaskMetadata id' m =>
      simp only [Blocked, Effect.apply, Function.update_apply] at h
      split at h
      · rename_i heq
        rw [← heq] at h
        cases hm : w.metadata id with
        | none =>
            have hreason : m.blockedReason = none := he
            simp [hm, TaskMetadata.update, isBlocked, hreason] at h
        | some m₀ =>
            rw [hm] at h
            rw [Blocked, hm]
            exact h
      · exact h
  | setRequestMetadata => exact any_of_modifyMetadata h fun _ hm => hm
  | setStreamMessageId => exact any_of_modifyMetadata h fun _ hm => hm
  | saveTasks | saveEnrichmentTasks | addTaskOnce =>
      simp only [Effect.apply] at h
      split at h <;> exact h
  | _ => exact h

/-- No plain effect takes a waiting task from the scanner. -/
theorem Waiting.apply (h : Waiting w id) (he : Plain e) : Waiting (e.apply w) id := by
  cases e with
  | blockTask => exact he.elim
  | clearWaitingTask => exact he.elim
  | setTaskMetadata id' m =>
      refine ⟨h.1, any_setTaskMetadata (fun m₀ hm => ?_) h.2⟩
      simp [TaskMetadata.update, show m₀.waitingForEngine = true from hm]
  | addWaitingTask => exact ⟨List.mem_append_left _ h.1, h.2⟩
  | setRequestMetadata =>
      exact ⟨h.1, any_modifyMetadata h.2 fun _ hm => hm⟩
  | setStreamMessageId =>
      exact ⟨h.1, any_modifyMetadata h.2 fun _ hm => hm⟩
  | saveTasks | saveEnrichmentTasks | addTaskOnce =>
      simp only [Effect.apply]
      split <;> exact h
  | _ => exact h

theorem published_apply : (e.apply w).published = w.published ∨
    ∃ event, e = .publish event ∧ (e.apply w).published = w.published ++ [event] := by
  cases e with
  | publish event => exact Or.inr ⟨event, rfl, rfl⟩
  | saveTasks | saveEnrichmentTasks | addTaskOnce =>
      refine Or.inl ?_
      simp only [Effect.apply]
      split <;> rfl
  | _ => exact Or.inl rfl

theorem mem_published_apply {event : Event} (h : event ∈ w.published) :
    event ∈ (e.apply w).published := by
  rcases published_apply (e := e) (w := w) with heq | ⟨_, _, heq⟩ <;> rw [heq]
  · exact h
  · exact List.mem_append_left _ h

/-- No plain effect announces a timeout. -/
theorem announced_of_apply {error : String}
    (h : .taskWaitTimeout id error ∈ (e.apply w).published) (he : Plain e) :
    .taskWaitTimeout id error ∈ w.published := by
  rcases published_apply (e := e) (w := w) with heq | ⟨event, rfl, heq⟩
  · rwa [heq] at h
  · rw [heq, List.mem_append, List.mem_singleton] at h
    rcases h with h | rfl
    · exact h
    · exact he.elim

end Worlds

/-- What a party knows: the event it handles, the task it has blocked, and the task it processes. -/
structure Known where
  received : Option Event := none
  blocked : Option Uuid := none
  processing : Option Uuid := none

def learn (k : Known) (e : WaitEffect) (s : WaitStore) : Known :=
  match e with
  | .receive place => { k with received := s.world.published[place]? }
  | .block taskId => { k with blocked := some taskId }
  | .checkBlocked taskId =>
      if unblocked s.world taskId then { k with processing := some taskId } else k
  | .leaveTask _ => { k with processing := none }
  | _ => k

/-- A handler handles what it has received, and a timeout is announced once its task is blocked. -/
def ByKnown (k : Known) : WaitEffect → Prop
  | .handle event e => k.received = some event ∧ Plain e
  | .store e => Plain e
  | .announceTimeout taskId _ => k.blocked = some taskId
  | _ => True

/-- A party that has returned processes no task. -/
def Returned (_ : Party) (_ : Unit) (k : Known) : Prop := k.processing = none

section Heeding

variable {k : Known} {taskId : Uuid} {scan : WaitScan}

/-- The program keeps to what its party knows, and ends without a task. -/
abbrev Heedful {A : Type} (p : WaitAction A) (k : Known) : Prop :=
  p.Heeds learn ByKnown (fun _ k' => k'.processing = none) k

theorem heedful_exec {e : WaitEffect} (he : ByKnown k e)
    (hk : ∀ s, (learn k e s).processing = none) : Heedful (exec e) k :=
  ⟨he, hk⟩

theorem heedful_bind {A B : Type} {p : WaitAction A} {f : A → WaitAction B}
    (hp : Heedful p k) (hf : ∀ a k', k'.processing = none → Heedful (f a) k') :
    Heedful (p >>= f) k :=
  Program.heeds_bind.mpr (Program.heeds_mono hp hf)

theorem heedful_getStores (h : k.processing = none) : Heedful getStores k :=
  ⟨trivial, fun _ => h⟩

theorem heedful_clearWaitingTaskMarker (h : k.processing = none) :
    Heedful (clearWaitingTaskMarker taskId) k :=
  heedful_bind (heedful_exec trivial fun _ => h) fun _ _ h' => heedful_exec trivial fun _ => h'

theorem heedful_timeOut {task : TaskModel} {metadata : TaskMetadata} (h : k.processing = none) :
    Heedful (timeOut scan task metadata) k := by
  refine Program.heeds_perform_bind.mpr ⟨trivial, fun s => ?_⟩
  refine Program.heeds_perform_bind.mpr ⟨rfl, fun _ => ?_⟩
  refine heedful_bind (k := learn k (.block task.id) s) ?_ fun _ _ h' =>
    heedful_clearWaitingTaskMarker h'
  cases messageOf metadata with
  | none => exact h
  | some messageId => exact heedful_exec trivial fun _ => h

theorem heedful_scanOverdue {metadata : TaskMetadata} (h : k.processing = none) :
    Heedful (scanOverdue scan taskId metadata) k := by
  refine heedful_bind (heedful_getStores h) fun w k' h' => ?_
  split
  · exact heedful_clearWaitingTaskMarker h'
  split
  swap
  · exact heedful_clearWaitingTaskMarker h'
  refine heedful_bind ?_ fun pending k'' h'' => ?_
  · cases messageOf metadata with
    | none => exact h'
    | some messageId => exact heedful_bind (heedful_getStores h') fun _ _ h'' => h''
  · split
    · exact heedful_clearWaitingTaskMarker h''
    · exact heedful_timeOut h''

theorem heedful_scanWaitingTask (h : k.processing = none) :
    Heedful (scanWaitingTask scan taskId) k := by
  refine heedful_bind (heedful_getStores h) fun w k' h' => ?_
  split
  · exact heedful_exec trivial fun _ => h'
  split
  swap
  · exact heedful_exec trivial fun _ => h'
  split
  · exact heedful_clearWaitingTaskMarker h'
  split
  · exact h'
  · exact heedful_scanOverdue h'

theorem heedful_scanEach (taskIds : List Uuid) (h : k.processing = none) :
    Heedful (scanEach scan taskIds) k := by
  induction taskIds generalizing k with
  | nil => exact h
  | cons taskId rest ih =>
      exact heedful_bind (heedful_scanWaitingTask h) fun _ _ h' => ih h'

theorem heeds_clearWaitingEngineMarker {succeed : Nat} {Q : Unit → Known → Prop} (h : Q () k) :
    (clearWaitingEngineMarker taskId succeed).Heeds learn ByKnown Q k := by
  unfold clearWaitingEngineMarker
  split
  · exact h
  refine Program.heeds_perform_bind.mpr ⟨trivial, fun _ => ?_⟩
  split
  · exact h
  · exact ⟨trivial, fun _ => h⟩

theorem heedful_processTask (run : EngineRun) : Heedful (processTask taskId run) k := by
  cases run with
  | completed | failed | unstarted | deferred =>
      repeat' refine Program.heeds_perform_bind.mpr ⟨trivial, fun _ => ?_⟩
      rfl

theorem heedful_processUnlessBlocked {messageId succeed : Nat} {run : EngineRun}
    (h : k.processing = none) :
    Heedful (processUnlessBlocked taskId messageId succeed run) k := by
  refine Program.heeds_perform_bind.mpr ⟨trivial, fun s => ?_⟩
  split
  · rename_i hnone
    have hlearn : learn k (.checkBlocked taskId) s = k := by simp [learn, unblocked, hnone]
    rw [hlearn]
    exact heedful_bind (heedful_exec trivial fun _ => h) fun _ _ h' =>
      heedful_exec trivial fun _ => h'
  · rename_i metadata hmetadata
    split
    · rename_i hblocked
      have hlearn : learn k (.checkBlocked taskId) s = k := by
        simp [learn, unblocked, hmetadata, hblocked]
      rw [hlearn]
      exact heedful_exec trivial fun _ => h
    · refine Program.heeds_bind.mpr (heeds_clearWaitingEngineMarker ?_)
      refine heedful_bind (heedful_processTask run) fun acknowledge k' h' => ?_
      split
      · exact heedful_exec trivial fun _ => h'
      · exact h'

/-- The code of a party keeps to what the party knows. -/
theorem heeds_code (party : Party) :
    party.code.Heeds learn ByKnown (Returned party) {} := by
  cases party with
  | handler env place =>
      refine Program.heeds_perform_bind.mpr ⟨trivial, fun s => ?_⟩
      split
      · rfl
      rename_i event hreceived
      refine Program.heeds_bind.mpr ?_
      have honly : ((dispatch env event).within (WaitEffect.handle event) WaitStore.world).Only
          fun e' => ∃ e, e' = WaitEffect.handle event e ∧ Plain e :=
        Program.only_within (plain_dispatch env event) fun e he => ⟨e, rfl, he⟩
      refine Program.heeds_of_only honly
        (R := fun k => k.received = some event ∧ k.processing = none) ⟨hreceived, rfl⟩ ?_ ?_ ?_
      · rintro k _ ⟨hreceived, _⟩ ⟨e, rfl, he⟩
        exact ⟨hreceived, he⟩
      · rintro k _ s hk ⟨e, rfl, _⟩
        exact hk
      · exact fun _ k hk => hk.2
  | scanner scan =>
      exact heedful_bind (heedful_getStores rfl) fun w _ h => heedful_scanEach w.waitingTasks h
  | engine messageId succeed run =>
      refine Program.heeds_perform_bind.mpr ⟨trivial, fun s => ?_⟩
      split
      · rfl
      refine heedful_bind (heedful_getStores rfl) fun w k h => ?_
      split
      · refine Program.heeds_bind.mpr (heeds_clearWaitingEngineMarker ?_)
        exact heedful_exec trivial fun _ => h
      · exact heedful_processUnlessBlocked h

end Heeding

section Spec

abbrev WaitPool := Pool Party (Noted WaitEffect Known) WaitStore (Unit × Known)

abbrev WaitTurn := Turn Party (Noted WaitEffect Known)

/-- The parties in sessions that remember what they know. -/
abbrev parties (party : Party) : Program (Noted WaitEffect Known) WaitStore (Unit × Known) :=
  party.code.noting learn {}

/-- No engine is at work on the task. -/
def Unattended (pool : WaitPool) (id : Uuid) : Prop :=
  ∀ t ∈ pool.threads, ∀ n ∈ t.rest.next?, n.known.processing ≠ some id

/-- The timeout of the task has been announced, or the scanner will look at the task again. -/
def Due (w : World) (id : Uuid) : Prop := Announced w id ∨ Waiting w id

/-- The later mark may follow the earlier one: no engine begins a task that was timed out, and no
task is timed out while its row counts the retries an engine began it with. -/
def MayFollow : WaitMark → WaitMark → Prop
  | .began id _, .timedOut id' _ => id ≠ id'
  | .timedOut id retries, .began id' retries' => ¬ (id = id' ∧ retries = retries')
  | _, _ => True

/-- Every mark of the journal may follow those before it. -/
def Exclusive (journal : List WaitMark) : Prop := journal.Pairwise MayFollow

/-- A blocked task has ended, or it still waits and its timeout is due. -/
def SettledTask (w : World) (task : TaskModel) : Prop :=
  hasEnded task = true ∨ waits task = true ∧ Due w task.id

/-- The task still waits, and no engine has begun it since its last retry. -/
def Idle (s : WaitStore) (id : Uuid) : Prop :=
  ∃ t ∈ s.world.tasks.rows, t.id = id ∧ waits t = true ∧ .began id t.retries ∉ s.journal

/-- What an effect writes to a row. -/
def WaitEffect.updateRow : WaitEffect → TaskModel → TaskModel
  | handle _ e | store e => e.updateRow
  | _ => id

/-- The effect leaves the task where it is or ends it. -/
def LeavesOrEnds (e : WaitEffect) (t : TaskModel) : Prop :=
  (e.updateRow t).retries = t.retries ∧
    ((e.updateRow t).status = t.status ∨ hasEnded (e.updateRow t) = true)

/-- A task is blocked while it is idle and marked, and no engine is at work on it; the markers of
a blocked task stay until its timeout is announced. -/
def Prompt (pool : WaitPool) : WaitEffect → Prop
  | .block id => Idle pool.store id ∧ Waiting pool.store.world id ∧ Unattended pool id
  | .sremWaiting id | .hdelMarkers id =>
      Blocked pool.store.world id → Announced pool.store.world id
  | _ => True

/-- The effect leaves every blocked task where it is or ends it. -/
def Settling (s : WaitStore) (e : WaitEffect) : Prop :=
  ∀ t ∈ s.world.tasks.rows, Blocked s.world t.id → LeavesOrEnds e t

/-- Tasks are blocked when they can be, and are not moved then but to their end. -/
def Timely (pool : WaitPool) : WaitTurn → Prop
  | .move i => ∀ n ∈ pool.next? i, Prompt pool n.effect ∧ Settling pool.store n.effect
  | .outside _ => False
  | .start _ | .fail _ => True

/-- The parties take their turns in any order. -/
def AnyOrder (_ : WaitPool) : WaitTurn → Prop
  | .outside _ => False
  | .start _ | .move _ | .fail _ => True

/-- What holds of the stores in timely runs. -/
structure Sound (s : WaitStore) : Prop where
  announced : ∀ id, Announced s.world id → Blocked s.world id
  timedOut : ∀ id retries, .timedOut id retries ∈ s.journal → Blocked s.world id
  row : ∀ id, Blocked s.world id → ∃ t ∈ s.world.tasks.rows, t.id = id
  fresh : ∀ t ∈ s.world.tasks.rows, Blocked s.world t.id → .began t.id t.retries ∉ s.journal
  settled : ∀ t ∈ s.world.tasks.rows, Blocked s.world t.id → SettledTask s.world t
  exclusive : Exclusive s.journal

/-- What a party knows is so. -/
structure Informed (s : WaitStore) (k : Known) : Prop where
  received : ∀ event, k.received = some event → event ∈ s.world.published
  blocked : ∀ id, k.blocked = some id → Blocked s.world id
  processing : ∀ id, k.processing = some id → ¬ Blocked s.world id

end Spec

section Invariants

variable {s s' : WaitStore} {w : World} {e : Effect} {k : Known} {id : Uuid}

theorem SettledTask.congr {w' : World} {t t' : TaskModel} (h : SettledTask w t)
    (hid : t'.id = t.id) (hstatus : t'.status = t.status) (hdue : Due w t.id → Due w' t.id) :
    SettledTask w' t' := by
  rcases h with hended | ⟨hwaits, hd⟩
  · refine Or.inl ?_
    rwa [hasEnded, hstatus]
  · refine Or.inr ⟨?_, hid ▸ hdue hd⟩
    rwa [waits, hstatus]

/-- The invariant goes over to stores with the same blocks and announcements, in which blocked
tasks are where they were or have ended, and are due if they waited. -/
theorem Sound.frame (h : Sound s) (hjournal : s'.journal = s.journal)
    (hblocked : ∀ id, Blocked s'.world id ↔ Blocked s.world id)
    (hannounced : ∀ id, Announced s'.world id ↔ Announced s.world id)
    (hwaiting : ∀ id, Blocked s.world id → Waiting s.world id → Due s'.world id)
    (hrow : ∀ t ∈ s.world.tasks.rows, ∃ t' ∈ s'.world.tasks.rows, t'.id = t.id)
    (hrows : ∀ t' ∈ s'.world.tasks.rows, Blocked s.world t'.id →
      ∃ t ∈ s.world.tasks.rows, t'.id = t.id ∧ t'.retries = t.retries ∧
        (t'.status = t.status ∨ hasEnded t' = true)) :
    Sound s' := by
  refine ⟨fun id ha => ?_, fun id retries ht => ?_, fun id hb => ?_, fun t' ht' hb => ?_,
    fun t' ht' hb => ?_, hjournal ▸ h.exclusive⟩
  · exact (hblocked id).mpr (h.announced id ((hannounced id).mp ha))
  · rw [hjournal] at ht
    exact (hblocked id).mpr (h.timedOut id retries ht)
  · obtain ⟨t, ht, rfl⟩ := h.row id ((hblocked id).mp hb)
    exact hrow t ht
  · have hb' := (hblocked _).mp hb
    obtain ⟨t, ht, hid, hretries, _⟩ := hrows t' ht' hb'
    rw [hjournal, hid, hretries]
    exact h.fresh t ht (hid ▸ hb')
  · have hb' := (hblocked _).mp hb
    obtain ⟨t, ht, hid, _, hstatus | hended⟩ := hrows t' ht' hb'
    · refine (h.settled t ht (hid ▸ hb')).congr hid hstatus fun hdue => ?_
      rcases hdue with ha | hw
      · exact Or.inl ((hannounced _).mpr ha)
      · exact hwaiting _ (hid ▸ hb') hw
    · exact Or.inl hended

theorem announced_apply_iff (he : Plain e) : Announced (e.apply w) id ↔ Announced w id :=
  ⟨fun ⟨error, h⟩ => ⟨error, announced_of_apply h he⟩,
    fun ⟨error, h⟩ => ⟨error, mem_published_apply h⟩⟩

/-- A plain effect that leaves blocked tasks or ends them. -/
theorem Sound.apply (h : Sound s) (he : Plain e)
    (hrows : ∀ t ∈ s.world.tasks.rows, Blocked s.world t.id → LeavesOrEnds (.store e) t) :
    Sound { s with world := e.apply s.world } := by
  refine h.frame rfl (fun id => ⟨fun hb => blocked_of_apply hb he, fun hb => hb.apply he⟩)
    (fun id => announced_apply_iff he) (fun id _ hw => Or.inr (hw.apply he)) (fun t ht => ?_)
    fun t' ht' hb => ?_
  · obtain ⟨t', ht', hdeclared⟩ := Saved.apply ⟨t, ht, rfl⟩ e
    exact ⟨t', ht', TaskModel.id_of_declared hdeclared⟩
  · obtain ⟨t, ht, hid⟩ := h.row t'.id hb
    obtain rfl := eq_updateRow ht ht' hid.symm
    obtain ⟨hretries, hstatus⟩ := hrows t ht (hid ▸ hb)
    exact ⟨t, ht, hid.symm, hretries, hstatus⟩

/-- A mark that may follow those of the journal is recorded. -/
theorem Sound.record (h : Sound s) {mark : WaitMark}
    (htimedOut : ∀ id retries, mark = .timedOut id retries → Blocked s.world id)
    (hbegan : ∀ id retries, mark = .began id retries → ¬ Blocked s.world id)
    (hfollow : ∀ earlier ∈ s.journal, MayFollow mark earlier) :
    Sound { s with journal := mark :: s.journal } := by
  refine ⟨h.announced, fun id retries ht => ?_, h.row, fun t ht hb hmem => ?_, h.settled,
    List.pairwise_cons.mpr ⟨hfollow, h.exclusive⟩⟩
  · rcases List.mem_cons.mp ht with heq | ht
    · exact htimedOut id retries heq.symm
    · exact h.timedOut id retries ht
  · rcases List.mem_cons.mp hmem with heq | hmem
    · exact hbegan _ _ heq.symm hb
    · exact h.fresh t ht hb hmem

theorem timeoutMarks_eq (event : Event) (e : Effect) (w : World) :
    timeoutMarks event e w = [] ∨ ∃ error, ∃ t ∈ w.tasks.rows,
      event = .taskWaitTimeout t.id error ∧ timeoutMarks event e w = [.timedOut t.id t.retries] := by
  unfold timeoutMarks
  split
  any_goals exact Or.inl rfl
  all_goals
    split
    swap
    · exact Or.inl rfl
    rename_i heq
    subst heq
    cases hget : w.tasks.get? _ with
    | none => exact Or.inl rfl
    | some t =>
        obtain ⟨ht, rfl⟩ := TaskTable.get?_eq_some.mp hget
        exact Or.inr ⟨_, t, ht, rfl, rfl⟩

/-- A timeout that ends its task is recorded. -/
theorem Sound.recordTimeout (h : Sound s) {event : Event}
    (hreceived : event ∈ s.world.published) :
    Sound { s with journal := timeoutMarks event e s.world ++ s.journal } := by
  rcases timeoutMarks_eq event e s.world with hmarks | ⟨error, t, ht, rfl, hmarks⟩ <;> rw [hmarks]
  · exact h
  have hb : Blocked s.world t.id := h.announced t.id ⟨error, hreceived⟩
  refine h.record ?_ (fun _ _ heq => nomatch heq) fun earlier hearlier => ?_
  · rintro id retries ⟨⟩
    exact hb
  · cases earlier with
    | timedOut => trivial
    | began id retries =>
        rintro ⟨rfl, rfl⟩
        exact h.fresh t ht hb hearlier

/-- The begin of an unblocked task is recorded. -/
theorem Sound.recordBegin (h : Sound s) (id : Uuid) :
    Sound { s with journal := beginMarks id s.world ++ s.journal } := by
  unfold beginMarks
  split
  swap
  · exact h
  rename_i hunblocked
  have hfree : ¬ Blocked s.world id := (unblocked_iff.mp hunblocked).2
  refine h.record (fun _ _ heq => nomatch heq) ?_ fun earlier hearlier => ?_
  · rintro id retries ⟨⟩
    exact hfree
  · cases earlier with
    | began => trivial
    | timedOut id' retries =>
        rintro rfl
        exact hfree (h.timedOut _ retries hearlier)

/-- The stores after the task was blocked. -/
abbrev blocking (id : Uuid) (w : World) : World :=
  (Effect.blockTask id "engine_wait_timeout").apply w

theorem blocked_blocking {id' : Uuid} (h : Blocked (blocking id w) id') :
    Blocked w id' ∨ id' = id := by
  by_cases hid : id' = id
  · exact Or.inr hid
  · refine Or.inl ?_
    simpa [Blocked, blocking, Effect.apply, Effect.modifyMetadata, Function.update_of_ne hid]
      using h

theorem Blocked.blocking {id' : Uuid} (h : Blocked w id') : Blocked (blocking id w) id' := by
  refine any_modifyMetadata h fun m _ => ?_
  simp [isBlocked]

theorem Waiting.blocking {id' : Uuid} (h : Waiting w id') : Waiting (blocking id w) id' :=
  ⟨h.1, any_modifyMetadata h.2 fun _ hm => hm⟩

theorem Waiting.blocked (h : Waiting w id) : Blocked (WaitingTasks.blocking id w) id := by
  have hwaiting := h.2
  cases hm : w.metadata id with
  | none => simp [hm] at hwaiting
  | some m =>
      simp [Blocked, WaitingTasks.blocking, Effect.apply, Effect.modifyMetadata, hm, isBlocked]

theorem Due.blocking {id' : Uuid} (h : Due w id') : Due (blocking id w) id' :=
  h.imp (fun ha => ha) Waiting.blocking

/-- A task that can be blocked is. -/
theorem Sound.block (h : Sound s) {t : TaskModel} (ht : t ∈ s.world.tasks.rows)
    (hwaits : waits t = true) (hfresh : .began t.id t.retries ∉ s.journal)
    (hwaiting : Waiting s.world t.id) :
    Sound { s with world := blocking t.id s.world } := by
  refine ⟨fun id ha => (h.announced id ha).blocking, fun id retries hm =>
    (h.timedOut id retries hm).blocking, fun id hb => ?_, fun u hu hb => ?_, fun u hu hb => ?_,
    h.exclusive⟩
  · rcases blocked_blocking hb with hb | rfl
    · exact h.row id hb
    · exact ⟨t, ht, rfl⟩
  · rcases blocked_blocking hb with hb | hid
    · exact h.fresh u hu hb
    · obtain rfl := TaskTable.eq_of_id hu ht hid
      exact hfresh
  · rcases blocked_blocking hb with hb | hid
    · exact (h.settled u hu hb).congr rfl rfl Due.blocking
    · obtain rfl := TaskTable.eq_of_id hu ht hid
      exact Or.inr ⟨hwaits, Or.inr hwaiting.blocking⟩

/-- The timeout of a blocked task is announced. -/
theorem Sound.announce (h : Sound s) {error : String} (hb : Blocked s.world id) :
    Sound { s with world := (Effect.publish (.taskWaitTimeout id error)).apply s.world } := by
  refine ⟨fun id' ha => ?_, h.timedOut, h.row, h.fresh, fun t ht hbt => ?_, h.exclusive⟩
  · obtain ⟨error', ha⟩ := ha
    rcases List.mem_append.mp ha with ha | ha
    · exact h.announced id' ⟨error', ha⟩
    · obtain ⟨rfl, -⟩ := Event.taskWaitTimeout.inj (List.mem_singleton.mp ha)
      exact hb
  · refine (h.settled t ht hbt).congr rfl rfl fun hdue => hdue.imp ?_ fun hw => hw
    rintro ⟨error', ha⟩
    exact ⟨error', List.mem_append_left _ ha⟩

/-- Markers are removed of tasks that are not blocked, or whose timeout is announced. -/
theorem Sound.removeMarkers (h : Sound s) {w' : World} (htasks : w'.tasks = s.world.tasks)
    (hpublished : w'.published = s.world.published)
    (hblocked : ∀ id', Blocked w' id' ↔ Blocked s.world id')
    (hothers : ∀ id', id' ≠ id → Waiting s.world id' → Waiting w' id')
    (hannounced : Blocked s.world id → Announced s.world id) :
    Sound { s with world := w' } := by
  have hsame : ∀ id', Announced w' id' ↔ Announced s.world id' := by
    intro id'
    rw [Announced, Announced, hpublished]
  refine h.frame rfl hblocked hsame (fun id' hb hw => ?_) (fun t ht => ?_) fun t ht _ => ?_
  · by_cases hid : id' = id
    · subst hid
      exact Or.inl ((hsame _).mpr (hannounced hb))
    · exact Or.inr (hothers id' hid hw)
  · exact ⟨t, by rwa [htasks], rfl⟩
  · exact ⟨t, by rwa [htasks] at ht, rfl, rfl, Or.inl rfl⟩

theorem blocked_unmarked (id' : Uuid) :
    Blocked (Effect.modifyMetadata id unmarked w) id' ↔ Blocked w id' :=
  ⟨fun hb => any_of_modifyMetadata hb fun _ hm => hm,
    fun hb => any_modifyMetadata hb fun _ hm => hm⟩

/-- The effects of the stores are plain. -/
def PlainEffect : WaitEffect → Prop
  | .handle _ e | .store e => Plain e
  | _ => True

theorem plainEffect_of_byKnown {e : WaitEffect} (h : ByKnown k e) : PlainEffect e := by
  cases e with
  | handle event e => exact h.2
  | store e => exact h
  | _ => trivial

/-- Only a block changes which tasks are blocked. -/
theorem blocked_waitApply_iff {e : WaitEffect} (he : PlainEffect e) (hblock : ∀ id, e ≠ .block id) :
    Blocked (e.apply s).world id ↔ Blocked s.world id := by
  cases e with
  | handle event e => exact ⟨fun hb => blocked_of_apply hb he, fun hb => hb.apply he⟩
  | store e => exact ⟨fun hb => blocked_of_apply hb he, fun hb => hb.apply he⟩
  | block id' => exact absurd rfl (hblock id')
  | takeEntry messageId =>
      simp only [WaitEffect.apply]
      split <;> rfl
  | hdelMarkers id' => exact blocked_unmarked id
  | _ => rfl

theorem Blocked.waitApply {e : WaitEffect} (h : Blocked s.world id) (he : PlainEffect e) :
    Blocked (e.apply s).world id := by
  by_cases hblock : ∃ id', e = .block id'
  · obtain ⟨id', rfl⟩ := hblock
    exact h.blocking
  · exact (blocked_waitApply_iff he fun id' heq => hblock ⟨id', heq⟩).mpr h

theorem mem_published_waitApply {e : WaitEffect} {event : Event} (h : event ∈ s.world.published) :
    event ∈ (e.apply s).world.published := by
  cases e with
  | handle _ e => exact mem_published_apply h
  | store e => exact mem_published_apply h
  | announceTimeout => exact List.mem_append_left _ h
  | takeEntry =>
      simp only [WaitEffect.apply]
      split <;> exact h
  | _ => exact h

/-- What a party knows stays so, unless the task it processes is blocked. -/
theorem Informed.waitApply {e : WaitEffect} (h : Informed s k) (he : PlainEffect e)
    (hfree : ∀ id, e = .block id → k.processing ≠ some id) : Informed (e.apply s) k := by
  refine ⟨fun event hreceived => mem_published_waitApply (h.received event hreceived),
    fun id hblocked => (h.blocked id hblocked).waitApply he, fun id hprocessing hb => ?_⟩
  by_cases hblock : ∃ id', e = .block id'
  · obtain ⟨id', rfl⟩ := hblock
    rcases blocked_blocking hb with hb | rfl
    · exact h.processing id hprocessing hb
    · exact hfree id rfl hprocessing
  · exact h.processing id hprocessing
      ((blocked_waitApply_iff he fun id' heq => hblock ⟨id', heq⟩).mp hb)

/-- A party learns what is so. -/
theorem Informed.learn {e : WaitEffect} (h : Informed (e.apply s) k)
    (hblocked : ∀ id, e = .block id → Blocked (e.apply s).world id) :
    Informed (e.apply s) (learn k e s) := by
  cases e with
  | receive place =>
      exact ⟨fun event hreceived => List.mem_of_getElem? hreceived, h.blocked, h.processing⟩
  | block id =>
      refine ⟨h.received, ?_, h.processing⟩
      rintro id ⟨⟩
      exact hblocked id rfl
  | checkBlocked id =>
      simp only [WaitingTasks.learn]
      split
      · rename_i hunblocked
        refine ⟨h.received, h.blocked, ?_⟩
        rintro id ⟨⟩
        exact (unblocked_iff.mp hunblocked).2
      · exact h
  | leaveTask id => exact ⟨h.received, h.blocked, fun _ hprocessing => nomatch hprocessing⟩
  | _ => exact h

theorem Sound.step {pool : WaitPool} {n : Noted WaitEffect Known} (h : Sound pool.store)
    (hk : Informed pool.store n.known) (he : ByKnown n.known n.effect)
    (hprompt : Prompt pool n.effect) (hsettling : Settling pool.store n.effect) :
    Sound (n.effect.apply pool.store) := by
  obtain ⟨e, k⟩ := n
  cases e with
  | receive place => exact h
  | handle event e =>
      have hmarked := h.recordTimeout (e := e) (hk.received event he.1)
      exact hmarked.apply he.2 hsettling
  | store e => exact h.apply he hsettling
  | takeEntry messageId =>
      simp only [WaitEffect.apply]
      split
      · exact h.apply trivial fun t _ _ => ⟨rfl, Or.inl rfl⟩
      · exact h
  | deleteEntry messageId =>
      exact ⟨h.announced, h.timedOut, h.row, h.fresh, h.settled, h.exclusive⟩
  | block id =>
      obtain ⟨⟨t, htask, rfl, hwaits, hfresh⟩, hwaiting, -⟩ := hprompt
      exact h.block htask hwaits hfresh hwaiting
  | announceTimeout id error => exact h.announce (hk.blocked id he)
  | checkBlocked id => exact h.recordBegin id
  | leaveTask id => exact h
  | sremWaiting id =>
      refine h.removeMarkers rfl rfl (fun _ => Iff.rfl) (fun id' hne hw => ⟨?_, hw.2⟩) hprompt
      exact List.mem_filter.mpr ⟨hw.1, decide_eq_true hne⟩
  | hdelMarkers id =>
      refine h.removeMarkers rfl rfl blocked_unmarked (fun id' hne hw => ⟨hw.1, ?_⟩) hprompt
      simpa [Effect.modifyMetadata, Function.update_of_ne hne] using hw.2

theorem Unattended.processing {pool : WaitPool} (h : Unattended pool id) {i : Nat}
    {n : Noted WaitEffect Known} (hn : pool.next? i = some n) : n.known.processing ≠ some id := by
  obtain ⟨t, ht, hnext⟩ := Option.bind_eq_some_iff.mp hn
  exact h t (List.mem_of_getElem? ht) n hnext

theorem sound_remembered : RemembersBorne learn ByKnown Returned {} Timely Sound Informed where
  start _ := ⟨(fun _ h => nomatch h), (fun _ h => nomatch h), (fun _ h => nomatch h)⟩
  step pool i n hok hnext hsound hknown he := by
    obtain ⟨hprompt, hsettling⟩ := hok n hnext
    refine ⟨hsound.step hknown he hprompt hsettling, ?_⟩
    refine (hknown.waitApply (plainEffect_of_byKnown he) fun id hblock => ?_).learn
      fun id hblock => ?_
    · rw [hblock] at hprompt
      exact hprompt.2.2.processing hnext
    · rw [hblock] at hprompt ⊢
      exact hprompt.2.1.blocked
  others pool i n k hok hnext hsound _ hborne hinformed he := by
    refine hinformed.waitApply (plainEffect_of_byKnown he) fun id hblock => ?_
    have hprompt := (hok n hnext).1
    rw [hblock] at hprompt
    rcases hborne with ⟨j, m, hm, rfl⟩ | ⟨party, a, hreturned⟩
    · exact hprompt.2.2.processing hm
    · intro hprocessing
      rw [show k.processing = none from hreturned] at hprocessing
      cases hprocessing
  outside pool n hok := hok.elim

/-- In runs whose tasks are blocked in time, timeouts and engines do not meet: no engine begins a
task that was timed out, none has begun one that is, and every blocked task has ended or still
waits for its timeout. -/
theorem timeouts_exclusive {job : JobModel} {pool : WaitPool}
    (run : Pool.Run parties Timely (Pool.idle ⟨submitted job, [], []⟩) pool) :
    Exclusive pool.store.journal ∧ ∀ t ∈ pool.store.world.tasks.rows,
      Blocked pool.store.world t.id → SettledTask pool.store.world t := by
  have hfree : ∀ id, ¬ Blocked (submitted job) id := fun id h => by simp [Blocked, submitted] at h
  have hstart : Sound ⟨submitted job, [], []⟩ := by
    refine ⟨fun id ha => ?_, fun id retries hm => ?_, fun id hb => absurd hb (hfree id),
      fun t _ hb => absurd hb (hfree t.id), fun t _ hb => absurd hb (hfree t.id), List.Pairwise.nil⟩
    · obtain ⟨error, ha⟩ := ha
      simp [submitted] at ha
    · cases hm
  obtain ⟨gs, hsessions⟩ := sound_remembered.run heeds_code hstart run
  exact ⟨hsessions.store.exclusive, hsessions.store.settled⟩

end Invariants

section Samples

def timesOut (id : Uuid) : Event → Bool
  | .taskWaitTimeout id' _ => id' = id
  | _ => false

instance (w : World) (id : Uuid) : Decidable (Announced w id) :=
  decidable_of_iff (∃ event ∈ w.published, timesOut id event = true) <| by
    constructor
    · rintro ⟨event, hmem, htimes⟩
      cases event with
      | taskWaitTimeout id' error =>
          obtain rfl : id' = id := of_decide_eq_true htimes
          exact ⟨error, hmem⟩
      | _ => cases htimes
    · rintro ⟨error, hmem⟩
      exact ⟨_, hmem, decide_eq_true rfl⟩

instance (w : World) (id : Uuid) : Decidable (Blocked w id) := inferInstanceAs (Decidable (_ = true))

instance (w : World) (id : Uuid) : Decidable (Waiting w id) := inferInstanceAs (Decidable (_ ∧ _))

instance (s : WaitStore) (id : Uuid) : Decidable (Idle s id) :=
  inferInstanceAs (Decidable (∃ t ∈ s.world.tasks.rows, _))

instance (pool : WaitPool) (id : Uuid) : Decidable (Unattended pool id) :=
  inferInstanceAs (Decidable (∀ t ∈ pool.threads, ∀ n ∈ t.rest.next?, _))

instance (e : WaitEffect) (t : TaskModel) : Decidable (LeavesOrEnds e t) :=
  inferInstanceAs (Decidable (_ ∧ _))

instance (s : WaitStore) (e : WaitEffect) : Decidable (Settling s e) :=
  inferInstanceAs (Decidable (∀ t ∈ s.world.tasks.rows, _))

instance (pool : WaitPool) : ∀ e, Decidable (Prompt pool e)
  | .block _ => inferInstanceAs (Decidable (_ ∧ _ ∧ _))
  | .sremWaiting _ | .hdelMarkers _ => inferInstanceAs (Decidable (_ → _))
  | .receive _ | .handle .. | .store _ | .takeEntry _ | .deleteEntry _ | .announceTimeout ..
  | .checkBlocked _ | .leaveTask _ => isTrue trivial

instance (pool : WaitPool) : ∀ turn, Decidable (Timely pool turn)
  | .move i => inferInstanceAs (Decidable (∀ n ∈ pool.next? i, _))
  | .outside _ => isFalse id
  | .start _ | .fail _ => isTrue trivial

instance (pool : WaitPool) : ∀ turn, Decidable (AnyOrder pool turn)
  | .outside _ => isFalse id
  | .start _ | .move _ | .fail _ => isTrue trivial

instance : ∀ later earlier, Decidable (MayFollow later earlier)
  | .began _ _, .timedOut _ _ => inferInstanceAs (Decidable (¬ _))
  | .timedOut _ _, .began _ _ => inferInstanceAs (Decidable (¬ _))
  | .began _ _, .began _ _ | .timedOut _ _, .timedOut _ _ => isTrue trivial

instance (journal : List WaitMark) : Decidable (Exclusive journal) :=
  inferInstanceAs (Decidable (journal.Pairwise MayFollow))

/-- No engine is there, and tasks wait for one. -/
def waitingEnv : Env := { sampleEnv monoDag (fun _ => false) with settings := ⟨"wait", 300, 1800⟩ }

/-- A scan after the deadline. -/
def lateScan : WaitScan := ⟨1000, 300, fun _ => false⟩

/-- The job is created, and its first task waits for an engine. -/
def waitingTurns : List WaitTurn := .start (.handler waitingEnv 0) :: List.replicate 20 (.move 0)

/-- The scanner times the task out, and the handler of the timeout fails it. -/
def timeoutTurns : List WaitTurn :=
  waitingTurns ++ .start (.scanner lateScan) :: List.replicate 12 (.move 0) ++
    .start (.handler waitingEnv 2) :: List.replicate 12 (.move 0)

def waitingPool (turns : List WaitTurn) : WaitPool :=
  (Pool.idle ⟨submitted (newJob 0 []), [], []⟩).turns parties turns

theorem timeouts_exclusive_sample :
    Exclusive (waitingPool timeoutTurns).store.journal ∧
      ∀ t ∈ (waitingPool timeoutTurns).store.world.tasks.rows,
        Blocked (waitingPool timeoutTurns).store.world t.id →
          SettledTask (waitingPool timeoutTurns).store.world t := by
  have hallowed : Pool.Allowed parties Timely (Pool.idle ⟨submitted (newJob 0 []), [], []⟩)
      timeoutTurns := by
    decide +kernel
  exact timeouts_exclusive (Pool.run_of_allowed hallowed)

/-- The scanner looks for the message before an engine receives it, and blocks the task after the
engine has begun it; the handler of the timeout still finds the task waiting. -/
def overtakenTurns : List WaitTurn :=
  waitingTurns ++ .start (.scanner lateScan) :: List.replicate 4 (.move 0) ++
    .start (.engine 0 0 .deferred) :: List.replicate 3 (.move 1) ++ List.replicate 2 (.move 0) ++
    .start (.handler waitingEnv 2) :: List.replicate 3 (.move 2)

/-- The timeout fails a task that an engine processes. -/
theorem begun_task_times_out : ¬ ∀ job pool,
    Pool.Run parties AnyOrder (Pool.idle ⟨submitted job, [], []⟩) pool →
      Exclusive pool.store.journal ∧ ∀ t ∈ pool.store.world.tasks.rows,
        Blocked pool.store.world t.id → SettledTask pool.store.world t := by
  intro h
  have hallowed : Pool.Allowed parties AnyOrder (Pool.idle ⟨submitted (newJob 0 []), [], []⟩)
      overtakenTurns := by
    decide +kernel
  have hexclusive := (h (newJob 0 []) (waitingPool overtakenTurns)
    (Pool.run_of_allowed hallowed)).1
  revert hexclusive
  decide +kernel

end Samples

end Dalston.Orchestrator.WaitingTasks
