import Dalston.Reconciler.Streams

/-!
# The reconciliation sweeper

One pass compares the task rows with the pending messages of all streams. It
settles running tasks that no pending message names, acknowledges the messages of
tasks that have ended, repeats the messages of ready tasks that a dead engine holds
or that were consumed, and completes jobs that are stuck.

## Implementation notes

What the pass learns from the object store, the registry and the clock is the
record `Env`. Rows are looked up in the database as each step finds it; the pending
messages are read once, before the steps. Completing a stuck job may create its
post-processing tasks; what it does to the job's row is not part of this store.
-/

namespace Dalston.Reconciler

open Foundation Model

/-- The columns of a task's row that the pass reads and writes. -/
structure TaskRow where
  id : Uuid
  jobId : Uuid
  stage : String
  engineId : String
  status : TaskStatus
  error : Option String
  startedAt : Option Time
  completedAt : Option Time

/-- The fields of the hash `dalston:task:{task_id}` that the pass reads; a text that is
empty is missing, and so is a time that cannot be parsed. -/
structure QueueMetadata where
  queueId : Option String
  stage : Option String
  engineId : Option String
  enqueuedAt : Option Time
  /-- The number is zero where the text is no message id. -/
  streamMessageId : Option MessageId

/-- What the pass publishes. -/
inductive SweepEvent
  | taskCompleted (taskId jobId : Uuid) (stage : String) (reconcilerAction : String)
  | taskFailed (taskId jobId : Uuid) (error : String) (reconcilerAction : String)

structure Store where
  tasks : List TaskRow
  uniqueId : (tasks.map (·.id)).Nodup
  streams : Streams
  metadata : Uuid → Option QueueMetadata
  published : List SweepEvent

/-- The hash of an engine instance. -/
structure InstanceHash where
  status : Option String
  lastHeartbeat : Option Time

/-- The tasks that completing a stuck job creates; the first one is queued, if it can be. -/
structure PostProcessing where
  first : TaskRow
  rest : List TaskRow
  metadata : QueueMetadata
  queueId : Option String

structure Env where
  now : Time
  /-- `_check_output_exists_in_s3`, of a job and a task. -/
  outputExists : Uuid → Uuid → Option Bool
  instances : String → Option InstanceHash
  /-- What completing the stuck jobs creates. -/
  postProcessing : List PostProcessing

def ORPHAN_THRESHOLD_SECONDS : Nat := 600

def READY_TASK_RECOVERY_THRESHOLD_SECONDS : Nat := 120

def HEARTBEAT_TIMEOUT_SECONDS : Nat := 60

/-- `is_engine_alive`. -/
def Env.isEngineAlive (env : Env) (consumer : String) : Bool :=
  (env.instances consumer).any fun data =>
    data.status.getD "offline" ≠ "offline" &&
      data.lastHeartbeat.any fun last => env.now < last + HEARTBEAT_TIMEOUT_SECONDS

namespace Store

/-- `db.get(TaskModel, task_id)`. -/
def row? (s : Store) (id : Uuid) : Option TaskRow := s.tasks.find? (·.id = id)

def addTask (s : Store) (queue : String) (taskId : Uuid) : Store :=
  { s with streams := s.streams.addTask queue taskId }

def ackTask (s : Store) (queue : String) (id : MessageId) : Store :=
  { s with streams := s.streams.ackTask queue id }

def setMetadata (s : Store) (taskId : Uuid) (metadata : QueueMetadata) : Store :=
  { s with metadata := Function.update s.metadata taskId (some metadata) }

end Store

/-- The pending entries of all streams. -/
abbrev Snapshot := List (String × List PendingTask)

def snapshot (s : Streams) : Snapshot := s.queues.map fun queue => (queue, s.getPending queue)

def pelTaskIds (pending : Snapshot) : List Uuid :=
  pending.flatMap fun x => x.2.filterMap (·.taskId)

section OrphanedDbTasks

variable (env : Env) (pelTaskIds : List Uuid)

/-- The task has been running for long and is in no pending list. -/
def orphaned (t : TaskRow) : Bool :=
  t.status = .running && (t.startedAt.any fun time => time + ORPHAN_THRESHOLD_SECONDS < env.now) &&
    t.id ∉ pelTaskIds

def orphanError : String := "Task orphaned: not found in Redis PEL during reconciliation"

def settleOrphan (t : TaskRow) : TaskRow :=
  if orphaned env pelTaskIds t then
    match env.outputExists t.jobId t.id with
    | none => t
    | some true => { t with status := .completed, completedAt := some env.now }
    | some false =>
        { t with status := .failed, error := some orphanError, completedAt := some env.now }
  else t

def orphanEvent? (t : TaskRow) : Option SweepEvent :=
  if orphaned env pelTaskIds t then
    match env.outputExists t.jobId t.id with
    | none => none
    | some true => some (.taskCompleted t.id t.jobId t.stage "recovered_completed")
    | some false => some (.taskFailed t.id t.jobId orphanError "marked_failed")
  else none

variable {env pelTaskIds} in
@[simp] theorem settleOrphan_id {t : TaskRow} : (settleOrphan env pelTaskIds t).id = t.id := by
  rw [settleOrphan]
  split
  · split <;> rfl
  · rfl

/-- `_reconcile_orphaned_db_tasks`. -/
def reconcileOrphanedDbTasks (s : Store) : Store where
  tasks := s.tasks.map (settleOrphan env pelTaskIds)
  uniqueId := by simpa [Function.comp_def] using s.uniqueId
  streams := s.streams
  metadata := s.metadata
  published := s.published ++ s.tasks.filterMap (orphanEvent? env pelTaskIds)

end OrphanedDbTasks

section OrphanedPelEntries

/-- The status is one of the four a task ends in. -/
def TaskRow.hasEnded (t : TaskRow) : Bool := t.status.terminal || t.status = .cancelled

/-- Acknowledge the first pending entry that names the task. -/
def ackEntry (s : Store) (stage : String) (taskId : Uuid) : Store :=
  match (s.streams.getPending stage).find? (·.taskId = some taskId) with
  | none => s
  | some entry => s.ackTask stage entry.messageId

def ackIfEnded (s : Store) (x : String × Uuid) : Store :=
  if (s.row? x.2).any (·.hasEnded) then ackEntry s x.1 x.2 else s

/-- The task ids of each stage. -/
def pelByStage (pending : Snapshot) : List (String × Uuid) :=
  pending.flatMap fun x => (x.2.filterMap (·.taskId)).dedup.map (x.1, ·)

/-- `_reconcile_orphaned_pel_entries`. -/
def reconcileOrphanedPelEntries (pending : Snapshot) (s : Store) : Store :=
  (pelByStage pending).foldl ackIfEnded s

end OrphanedPelEntries

section StaleReadyTasks

/-- `entries[entry.task_id] = entry`. -/
def setEntry (entries : List PendingTask) (entry : PendingTask) : List PendingTask :=
  if entries.any (·.taskId = entry.taskId) then
    entries.map fun e => if e.taskId = entry.taskId then entry else e
  else entries ++ [entry]

/-- The pending entries of a stage by task id; a later one replaces an earlier one. -/
def entriesByTask (pending : List PendingTask) : List PendingTask := pending.foldl setEntry []

def pelEntriesByStage (pending : Snapshot) : List (String × PendingTask) :=
  pending.flatMap fun x => (entriesByTask x.2).map (x.1, ·)

def TaskRow.waits (t : TaskRow) : Bool := t.status = .ready || t.status = .pending

/-- The entry is stale, its task has not started, and its engine is dead. -/
def isStale (env : Env) (s : Store) (entry : PendingTask) : Bool :=
  ORPHAN_THRESHOLD_SECONDS * 1000 ≤ entry.idleMs &&
    ((entry.taskId.bind s.row?).any (·.waits) && !env.isEngineAlive entry.consumer)

/-- The task is added again before the old entry is acknowledged. -/
def requeueEntry (s : Store) (stage : String) (entry : PendingTask) : Store :=
  match entry.taskId with
  | none => s
  | some taskId => (s.addTask stage taskId).ackTask stage entry.messageId

def requeueIfStale (env : Env) (s : Store) (x : String × PendingTask) : Store :=
  if isStale env s x.2 then requeueEntry s x.1 x.2 else s

/-- `_reconcile_stale_ready_tasks`. -/
def reconcileStaleReadyTasks (env : Env) (pending : Snapshot) (s : Store) : Store :=
  (pelEntriesByStage pending).foldl (requeueIfStale env) s

end StaleReadyTasks

section ConsumedMessages

/-- A text that is not empty. -/
def nonempty? (text : String) : Option String := if text = "" then none else some text

/-- The queue of a task, with the fallbacks for older metadata. -/
def queueOf (metadata : QueueMetadata) (t : TaskRow) : Option String :=
  metadata.queueId <|> metadata.stage <|> metadata.engineId <|> nonempty? t.engineId

/-- The message the metadata names was added long enough ago. -/
def settled (env : Env) (metadata : QueueMetadata) : Bool :=
  !metadata.enqueuedAt.any fun time => env.now < time + READY_TASK_RECOVERY_THRESHOLD_SECONDS

/-- The message of a task's metadata that may have been consumed, with its queue. -/
def namedMessage (env : Env) (s : Store) (t : TaskRow) : Option (String × MessageId) := do
  let metadata ← s.metadata t.id
  let messageId ← metadata.streamMessageId
  let queueId ← queueOf metadata t
  if settled env metadata then some (queueId, messageId) else none

/-- The message was delivered and is pending no more. -/
def isConsumed (s : Streams) (x : String × MessageId) : Bool :=
  !s.isPending x.1 x.2 && s.isDelivered x.1 x.2

/-- Add the task again and note its new message. -/
def requeueNamed (s : Store) (t : TaskRow) (queueId : String) : Store :=
  let messageId := s.streams.nextId queueId
  let s := s.addTask queueId t.id
  match s.metadata t.id with
  | none => s
  | some metadata =>
      s.setMetadata t.id
        { metadata with queueId := some queueId, streamMessageId := some messageId }

def requeueIfConsumed (env : Env) (s : Store) (t : TaskRow) : Store :=
  match (namedMessage env s t).filter (isConsumed s.streams) with
  | none => s
  | some (queueId, _) => requeueNamed s t queueId

/-- `_reconcile_ready_tasks_with_consumed_messages`. -/
def reconcileConsumedMessages (env : Env) (s : Store) : Store :=
  (s.tasks.filter (·.status = .ready)).foldl (requeueIfConsumed env) s

end ConsumedMessages

section StuckJobs

/-- Rows are inserted unless one of them has the id of another row. -/
def Store.Insertable (s : Store) (rows : List TaskRow) : Prop :=
  ((s.tasks ++ rows).map (·.id)).Nodup

instance (s : Store) (rows : List TaskRow) : Decidable (s.Insertable rows) :=
  inferInstanceAs (Decidable (_ : List Uuid).Nodup)

def Store.insert (s : Store) (rows : List TaskRow) (h : s.Insertable rows) : Store :=
  { s with tasks := s.tasks ++ rows, uniqueId := h }

/-- Queue the first post-processing task and note its message. -/
def queueFirst (s : Store) (p : PostProcessing) : Option String → Store
  | none => s
  | some queueId =>
      (s.addTask queueId p.first.id).setMetadata p.first.id
        { p.metadata with streamMessageId := some (s.streams.nextId queueId) }

/-- `schedule_post_processing`, after the job was completed. -/
def startPostProcessing (s : Store) (p : PostProcessing) : Store :=
  if h : s.Insertable ({ p.first with status := .ready } :: p.rest) then
    queueFirst (s.insert _ h) p p.queueId
  else s

/-- `_reconcile_stuck_running_jobs`. -/
def reconcileStuckJobs (env : Env) (s : Store) : Store :=
  env.postProcessing.foldl startPostProcessing s

end StuckJobs

/-- `ReconciliationSweeper._reconcile`. -/
def reconcile (env : Env) (s : Store) : Store :=
  let pending := snapshot s.streams
  let s := reconcileOrphanedDbTasks env (pelTaskIds pending) s
  let s := reconcileOrphanedPelEntries pending s
  let s := reconcileStaleReadyTasks env pending s
  let s := reconcileConsumedMessages env s
  reconcileStuckJobs env s

end Dalston.Reconciler
