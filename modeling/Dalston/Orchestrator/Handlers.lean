import Dalston.Orchestrator.PostProcessor

/-!
# Event handlers

The orchestrator consumes the durable event stream and runs one handler for
each event. A handler that returns acknowledges its event; a handler that
raises, or whose process dies, leaves the event pending for a redelivery.

## Implementation notes

The database session keeps the rows it has loaded, so a handler reads its own
writes; each read of the source is a read of the world here. Metrics, log
lines, webhook deliveries and the retention dates of artifacts are left out.
The dead-letter stream takes an event of an unknown type away at once, which
is an acknowledgement here.
-/

namespace Dalston.Orchestrator

open Foundation Model

/-- How an invocation of a handler ends when its process lives on. -/
inductive Outcome
  | returned
  | raised
  deriving DecidableEq

/-- `_is_non_retryable_task_error`. No letter outside ASCII has a lower case that
takes part in one of these texts. -/
def isNonRetryableTaskError (error : String) : Bool :=
  let lowered := error.toList.map Char.toLower
  containsText "is not found or cannot be loaded".toList lowered &&
    ["libcublas", "libcudnn", "libcuda", "libnvrtc"].any fun marker =>
      containsText marker.toList lowered

/-- `DECR` of the tenant's counter, which is not left negative. -/
def releaseSlot : Action Unit := do
  let before ← Program.perform .decrConcurrentJobs
  if before.concurrentJobs - 1 < 0 then exec .resetConcurrentJobs else return ()

/-- `_decrement_concurrent_jobs`, guarded by `SET NX`. -/
def decrementConcurrentJobs : Action Unit := do
  let before ← Program.perform .setDecremented
  if before.decremented then return () else releaseSlot

/-- Release the job's slot and publish how it ended. -/
def announceEnd (event : Event) : Action Unit := do
  decrementConcurrentJobs
  exec (.publish event)

def failJobOnBuild (env : Env) (message : String) : Action Unit := do
  exec (.failJobOnBuild (.text message) env.now)
  announceEnd (.jobFailed (.text message))

def failJobOnQueue (env : Env) (detail : Config) : Action Unit := do
  exec (.failJobOnQueue (.engine detail) env.now)
  announceEnd (.jobFailed (.engine detail))

/-- Queue the tasks that have no dependencies. -/
def queueRoots (env : Env) (audio : Option AudioMetadata) : List Task → Action Outcome
  | [] => return .returned
  | task :: rest => do
      exec (.markReady task.id (some env.now))
      match ← queueTask env task [] (if task.stage = "prepare" then audio else none) none with
      | .ok () => queueRoots env audio rest
      | .error (.engine detail) => do
          failJobOnQueue env detail
          return .returned
      | .error .other => return .raised

def roots (dag : Dag) : List Task := dag.tasks.filter fun t => t.dependencies.isEmpty

def dagModels (dag : Dag) : List TaskModel := dag.tasks.map (Task.toModel "request_bindings")

/-- The broken constraint is the one another orchestrator's insert breaks. -/
def stageTaken (table : TaskTable) (models : List TaskModel) : Bool :=
  models.any fun t => table.rows.any fun u => u.stage = t.stage

def saveDag (env : Env) (job : JobModel) (dag : Dag) : Action Outcome := do
  let before ← Program.perform (.saveTasks (dagModels dag) env.now)
  if before.tasks.Insertable (dagModels dag) then
    queueRoots env (AudioMetadata.ofJob job) (roots dag)
  else if stageTaken before.tasks (dagModels dag) then return .returned
  else return .raised

def buildJob (env : Env) (job : JobModel) : Action Outcome := do
  match ← selectTasks with
  | _ :: _ => return .returned
  | [] =>
      match env.buildTaskDag job with
      | .error (.rejected message) => do
          failJobOnBuild env message
          return .returned
      | .error .raised => return .raised
      | .ok dag => saveDag env job dag

def handleJobCreated (env : Env) : Action Outcome := do
  let w ← getWorld
  match w.job.status with
  | .cancelling | .cancelled | .running => return .returned
  | .pending | .completed | .failed => buildJob env w.job

def handleTaskStarted (env : Env) (taskId : Uuid) : Action Outcome := do
  exec (.claimRunning taskId env.now)
  return .returned

/-- The outcome of a job whose pipeline tasks are all terminal. -/
structure JobOutcome where
  status : JobStatus
  error : Option ErrorText
  transcript : Option Config

def pipelineTasks (tasks : List TaskModel) : List TaskModel :=
  tasks.filter fun t => !isPostProcessingTask t

def anyFailed (tasks : List TaskModel) : Bool :=
  (pipelineTasks tasks).any fun t => t.status = .failed && t.required

def jobOutcome (env : Env) (w : World) : JobOutcome :=
  if anyFailed w.tasks.rows then
    { status := .failed
      error := w.job.error <|> some (.text "One or more required tasks failed")
      transcript := none }
  else
    match env.assembleTranscript w.job w.tasks.rows w.responses with
    | .ok transcript =>
        { status := .completed, error := w.job.error, transcript := some transcript }
    | .error detail =>
        { status := .failed, error := some (.assembly detail), transcript := none }

def endEvent (outcome : JobOutcome) : Event :=
  match outcome.status with
  | .failed => .jobFailed (outcome.error.getD (.text "Unknown error"))
  | _ => .jobCompleted

def writeTranscript : Option Config → Action Unit
  | some transcript => exec (.putTranscript transcript)
  | none => return ()

def finaliseJob (env : Env) (w : World) : Action Unit := do
  let outcome := jobOutcome env w
  writeTranscript outcome.transcript
  exec (.finaliseJob outcome.status outcome.error env.now)
  announceEnd (endEvent outcome)
  if !anyFailed w.tasks.rows && needsPostProcessing w.job then
    schedulePostProcessing env w.job
  else return ()

/-- `_check_job_completion`. -/
def checkJobCompletion (env : Env) : Action Unit := do
  let tasks ← selectTasks
  if (pipelineTasks tasks).all fun t => t.status.terminal then do
    let w ← getWorld
    if w.job.status.terminal then return () else finaliseJob env w
  else return ()

/-- `_check_job_cancellation_complete`. -/
def checkJobCancellationComplete (env : Env) : Action Unit := do
  let w ← getWorld
  if w.job.status = .cancelling then do
    let tasks ← selectTasks
    if tasks.any fun t => t.status = .running then return ()
    else do
      exec (.cancelJob env.now)
      announceEnd .jobCancelled
  else return ()

def idsIn (statuses : List TaskStatus) (tasks : List TaskModel) : List Uuid :=
  (tasks.filter fun t => t.status ∈ statuses).map (·.id)

def handleJobCancelRequested (env : Env) : Action Outcome := do
  exec .markJobCancelled
  let tasks ← selectTasks
  exec (.cancelTasks (idsIn [.pending, .ready] tasks))
  checkJobCancellationComplete env
  return .returned

/-- All dependencies of the task are completed in the given rows. -/
def depsMet (tasks : List TaskModel) (task : TaskModel) : Bool :=
  task.dependencies.all fun id => id ∈ idsIn [.completed] tasks

/-- The update that claims the task finds it still pending. -/
def claimable (w : World) (id : Uuid) : Bool :=
  match w.tasks.get? id with
  | some task => task.status = .pending
  | none => false

def scheduleDependent (env : Env) (tasks : List TaskModel) (task : TaskModel) :
    Action (Except QueueError Unit) := do
  let before ← Program.perform (.claimReady task.id env.now)
  if claimable before task.id then do
    let w ← getWorld
    queueTask env (Task.modelValidate { task with status := .ready, readyAt := some env.now })
      (gatherPreviousResponses task.dependencies tasks w.responses) none none
  else return .ok ()

/-- Queue every pending task whose dependencies are all completed. -/
def scheduleDependents (env : Env) (tasks : List TaskModel) :
    List TaskModel → Action (Except QueueError Unit)
  | [] => return .ok ()
  | task :: rest =>
      if task.status = .pending ∧ depsMet tasks task then do
        match ← scheduleDependent env tasks task with
        | .ok () => scheduleDependents env tasks rest
        | .error e => return .error e
      else scheduleDependents env tasks rest

/-- End the handler of a completed task after its dependents have been looked at. -/
def afterDependents (env : Env) : Except QueueError Unit → Action Outcome
  | .ok () => do
      checkJobCompletion env
      return .returned
  | .error (.engine detail) => do
      failJobOnQueue env detail
      return .returned
  | .error .other => return .raised

/-- The part of `handle_task_completed` that looks at the whole job. -/
def continueJob (env : Env) : Action Outcome := do
  let tasks ← selectTasks
  let w ← getWorld
  if w.job.status = .cancelling then do
    exec (.cancelTasks (idsIn [.pending] tasks))
    checkJobCancellationComplete env
    return .returned
  else do
    afterDependents env (← scheduleDependents env tasks tasks)

/-- The duration of the first channel file in a response of the prepare stage. -/
def preparedDuration (output : Option Config) : Except Unit (Option Rat) :=
  match output.bind fun output => output.get? "data" with
  | none => .ok none
  | some (.obj data) =>
      match Dict.getD data "channel_files" (.arr []) with
      | .arr (.obj file :: _) =>
          match Dict.get? file "duration" with
          | some (.num duration) => .ok (some duration)
          | some .null | none => .ok none
          | some _ => .error ()
      | files => if files.truthy then .error () else .ok none
  | some _ => .error ()

def updateAudioDuration (task : TaskModel) : Action Outcome :=
  if task.stage = "prepare" then do
    let w ← getWorld
    match w.job.audioDuration, preparedDuration (w.responses task.id) with
    | some _, _ => return .returned
    | none, .ok none => return .returned
    | none, .ok (some duration) => do
        exec (.setAudioDuration duration)
        return .returned
    | none, .error () => return .raised
  else return .returned

/-- Mark the task as completed unless it is completed or skipped. -/
def settleTask (env : Env) (task : TaskModel) : Action TaskStatus :=
  match task.status with
  | .completed => return .completed
  | .skipped => return .skipped
  | .pending | .ready | .running | .failed | .cancelled => do
      exec (.completeTask task.id env.now)
      return .completed

/-- Patch the transcript when every enrichment is done. -/
def finishEnrichments : Action Unit := do
  let w ← getWorld
  if checkPostProcessingCompletion w.enrichments then updateTranscriptWithPii else return ()

def recordEnrichment (task : TaskModel) (status : TaskStatus) : Action Unit :=
  if isPostProcessingTask task && status = .completed then do
    exec (.setEnrichment task.stage .completed)
    finishEnrichments
  else return ()

/-- What follows once the task of the event is completed or skipped. -/
def finishTask (env : Env) (task : TaskModel) (status : TaskStatus) : Action Outcome := do
  recordEnrichment task status
  match ← updateAudioDuration task with
  | .returned => continueJob env
  | .raised => return .raised

def handleTaskCompleted (env : Env) (taskId : Uuid) : Action Outcome := do
  match ← getTask taskId with
  | none => return .returned
  | some task => finishTask env task (← settleTask env task)

/-- The job's row is moved to failed unless it is failed or cancelled. -/
def markJobFailed (env : Env) (task : TaskModel) (error : ErrorText) : Action ErrorText := do
  let w ← getWorld
  match w.job.status with
  | .failed | .cancelled => return w.job.error.getD error
  | .pending | .running | .completed | .cancelling => do
      exec (.failJobOnTask task.id (.task task.stage error) env.now)
      return .task task.stage error

/-- `_ensure_job_failed_side_effects`. -/
def ensureJobFailedSideEffects (env : Env) (task : TaskModel) (error : ErrorText) :
    Action Outcome := do
  let error ← markJobFailed env task error
  announceEnd (.jobFailed error)
  return .returned

/-- `_ensure_retry_enqueued`; the first attempt to queue a retry is the same code. -/
def ensureRetryEnqueued (env : Env) (task : TaskModel) : Action Outcome := do
  let tasks ← selectTasks
  let w ← getWorld
  match ← queueTask env (Task.modelValidate task)
      (gatherPreviousResponses task.dependencies tasks w.responses) none
      (some task.retries) with
  | .ok () => return .returned
  | .error (.engine detail) => do
      exec (.failTask task.id (.engine detail) none)
      ensureJobFailedSideEffects env task (.engine detail)
  | .error .other => return .raised

/-- A running task that failed is retried. -/
def retries (task : TaskModel) (error : String) : Bool :=
  !isNonRetryableTaskError error && task.retries < task.maxRetries

def markEnrichmentFailed (task : TaskModel) : Action Unit :=
  if isPostProcessingTask task then exec (.setEnrichment task.stage .failed) else return ()

/-- The normal path of a failure: retry, skip or fail the task. -/
def failRunningTask (env : Env) (task : TaskModel) (error : String) : Action Outcome :=
  if retries task error then do
    exec (.retryTask task.id error env.now)
    ensureRetryEnqueued env
      { task with
          retries := task.retries + 1, status := .ready, readyAt := some env.now
          error := some (.text error) }
  else if task.required then do
    exec (.failTask task.id (.text error) none)
    ensureJobFailedSideEffects env task (.text error)
  else do
    exec (.skipTask task.id error none)
    markEnrichmentFailed task
    handleTaskCompleted env task.id

def handleTaskFailed (env : Env) (taskId : Uuid) (error : String) : Action Outcome := do
  match ← getTask taskId with
  | none => return .returned
  | some task =>
      match task.status with
      | .skipped => handleTaskCompleted env taskId
      | .failed => ensureJobFailedSideEffects env task (task.error.getD (.text error))
      | .ready => ensureRetryEnqueued env task
      | .running => failRunningTask env task error
      | .pending | .completed | .cancelled => return .returned

def handleTaskWaitTimeout (env : Env) (taskId : Uuid) (error : String) : Action Outcome := do
  match ← getTask taskId with
  | none => return .returned
  | some task =>
      match task.status with
      | .skipped => handleTaskCompleted env taskId
      | .failed => ensureJobFailedSideEffects env task (task.error.getD (.text error))
      | .ready | .pending =>
          if task.required then do
            exec (.failTask taskId (.text error) (some env.now))
            ensureJobFailedSideEffects env task (.text error)
          else do
            exec (.skipTask taskId error (some env.now))
            handleTaskCompleted env taskId
      | .running | .completed | .cancelled => return .returned

/-- `_dispatch_event_dict`. -/
def dispatch (env : Env) : Event → Action Outcome
  | .jobCreated => handleJobCreated env
  | .taskStarted taskId => handleTaskStarted env taskId
  | .taskCompleted taskId => handleTaskCompleted env taskId
  | .taskFailed taskId error => handleTaskFailed env taskId error
  | .taskWaitTimeout taskId error => handleTaskWaitTimeout env taskId error
  | .jobCancelRequested => handleJobCancelRequested env
  | .jobCompleted | .jobFailed _ | .jobCancelled | .engineNeeded _ => return .returned

def settle (message : Message) : Outcome → Action Unit
  | .returned => exec (.ackEvent message.id)
  | .raised => return ()

/-- `_process_durable_event`: an event is acknowledged when its handler has returned. -/
def processDurableEvent (env : Env) (message : Message) : Action Unit := do
  settle message (← dispatch env message.event)

end Dalston.Orchestrator
