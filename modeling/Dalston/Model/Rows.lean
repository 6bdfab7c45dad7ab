import Dalston.Model.Artifacts

/-!
# Rows, stream entries and events

The records of one batch job: its row and its tasks' rows in the database, the
entries of its tasks in the engine streams, the task metadata hashes and the
events of the durable event stream. Task statuses and job statuses are the
source's enumerations.

## Implementation notes

Everything here belongs to one job, so a row carries no job id of its own.
Error columns keep the structure of the text the source formats: an engine
error is the dictionary that is dumped to JSON, and a failed task's text keeps
its stage and its cause.
-/

namespace Dalston.Model

open Foundation

/-- Identifiers of jobs and tasks. -/
abbrev Uuid := Nat

/-- Points in time, in seconds. -/
abbrev Time := Nat

inductive JobStatus
  | pending | running | completed | failed | cancelling | cancelled
  deriving DecidableEq, Repr

inductive TaskStatus
  | pending | ready | running | completed | failed | skipped | cancelled
  deriving DecidableEq, Repr

/-- The statuses a job can end in. -/
def JobStatus.terminal : JobStatus → Bool
  | .completed | .failed | .cancelled => true
  | .pending | .running | .cancelling => false

/-- Membership in `TERMINAL_TASK_STATES`, which does not hold the cancelled status. -/
def TaskStatus.terminal : TaskStatus → Bool
  | .completed | .skipped | .failed => true
  | .pending | .ready | .running | .cancelled => false

/-- The texts written to an error column. -/
inductive ErrorText
  /-- A message as it stands. -/
  | text (message : String)
  /-- The JSON text of an engine error's `to_dict`. -/
  | engine (detail : Config)
  /-- `Task {stage} failed: {cause}`. -/
  | task (stage : String) (cause : ErrorText)
  /-- `Transcript assembly failed: {detail}`. -/
  | assembly (detail : String)

/-- A row of the `tasks` table with its dependency links. -/
structure TaskModel where
  id : Uuid
  stage : String
  engineId : String
  status : TaskStatus
  config : Config
  requestUri : Option String
  responseUri : Option String
  retries : Nat
  maxRetries : Nat
  required : Bool
  error : Option ErrorText
  readyAt : Option Time
  startedAt : Option Time
  completedAt : Option Time
  dependencies : List Uuid

/-- The columns of a row that are written once, when the row is inserted. -/
def TaskModel.declared (t : TaskModel) : TaskModel :=
  { t with
      status := .pending, retries := 0, error := none
      readyAt := none, startedAt := none, completedAt := none }

theorem TaskModel.id_of_declared {t u : TaskModel} (h : t.declared = u.declared) :
    t.id = u.id := by
  simpa [declared] using congrArg TaskModel.id h

theorem TaskModel.stage_of_declared {t u : TaskModel} (h : t.declared = u.declared) :
    t.stage = u.stage := by
  simpa [declared] using congrArg TaskModel.stage h

theorem TaskModel.dependencies_of_declared {t u : TaskModel} (h : t.declared = u.declared) :
    t.dependencies = u.dependencies := by
  simpa [declared] using congrArg TaskModel.dependencies h

/-- The `tasks` table: its rows in insertion order, under its two constraints. -/
structure TaskTable where
  rows : List TaskModel
  /-- The primary key. -/
  uniqueId : (rows.map (·.id)).Nodup
  /-- The unique constraint `uq_tasks_job_id_stage`. -/
  uniqueStage : (rows.map (·.stage)).Nodup

/-- The builders' task object, which alone carries the declared bindings. -/
structure Task where
  id : Uuid
  stage : String
  engineId : String
  status : TaskStatus
  dependencies : List Uuid
  inputBindings : List Json
  config : Config
  requestUri : Option String
  responseUri : Option String
  retries : Nat
  maxRetries : Nat
  required : Bool

/-- A row of the `jobs` table. -/
structure JobModel where
  id : Uuid
  status : JobStatus
  parameters : Config
  error : Option ErrorText
  startedAt : Option Time
  completedAt : Option Time
  audioFormat : Option String
  audioDuration : Option Rat
  audioSampleRate : Option Int
  audioChannels : Option Int
  audioBitDepth : Option Int
  piiEntitiesDetected : Option Nat
  piiRedactedAudioUri : Option Json

/-- The events of the durable event stream. -/
inductive Event
  | jobCreated
  | taskStarted (taskId : Uuid)
  | taskCompleted (taskId : Uuid)
  | taskFailed (taskId : Uuid) (error : String)
  | taskWaitTimeout (taskId : Uuid) (error : String)
  | jobCompleted
  | jobFailed (error : ErrorText)
  | jobCancelRequested
  | jobCancelled
  | engineNeeded (taskId : Uuid)

/-- A message of the durable stream, pending until it is acknowledged. -/
structure Message where
  id : Nat
  event : Event

/-- A stream entry is unread, held by a consumer, or acknowledged. -/
inductive EntryState
  | unread | claimed | acked
  deriving DecidableEq, Repr

/-- An entry of an engine's stream. The retry key is the retries counter of the
idempotency key the entry was added under, if it was added under one. -/
structure StreamEntry where
  messageId : Nat
  queueId : String
  taskId : Uuid
  retryKey : Option Nat
  state : EntryState

/-- An entry is live until an engine acknowledges it. -/
def StreamEntry.live (entry : StreamEntry) : Bool := entry.state ≠ .acked

inductive EnrichmentStatus
  | pending | running | completed | failed
  deriving DecidableEq, Repr

/-- The hash `dalston:task:{task_id}`. -/
structure TaskMetadata where
  stage : String
  engineId : String
  queueId : String
  executionProfile : String
  enqueuedAt : Time
  waitingForEngine : Bool
  waitTimeoutS : Option Nat
  waitDeadlineAt : Option Time
  blockedReason : Option String
  requestBindings : List Json
  resolvedArtifactIds : Dict String
  streamMessageId : Option Nat

/-- The document `request.json` an engine reads. -/
structure TaskRequestData where
  payload : Option Json
  previousResponses : Config
  config : Config
  requestBindings : List RequestBinding
  resolvedArtifactIds : Dict String
  artifactIndex : Dict ArtifactReference

/-- The engine reads the task back from its row; the row has no binding column. -/
def Task.modelValidate (task : TaskModel) : Task where
  id := task.id
  stage := task.stage
  engineId := task.engineId
  status := task.status
  dependencies := task.dependencies
  inputBindings := []
  config := task.config
  requestUri := task.requestUri
  responseUri := task.responseUri
  retries := task.retries
  maxRetries := task.maxRetries
  required := task.required

/-- The row a builder's task is saved as, with its bindings under the given config key. -/
def Task.toModel (bindingsKey : String) (task : Task) : TaskModel where
  id := task.id
  stage := task.stage
  engineId := task.engineId
  status := task.status
  config :=
    if task.inputBindings.isEmpty then task.config
    else task.config.set bindingsKey (.arr task.inputBindings)
  requestUri := task.requestUri
  responseUri := task.responseUri
  retries := task.retries
  maxRetries := task.maxRetries
  required := task.required
  error := none
  readyAt := none
  startedAt := none
  completedAt := none
  dependencies := task.dependencies

namespace TaskTable

/-- The table of a job that has no tasks yet. -/
def empty : TaskTable := ⟨[], by simp, by simp⟩

/-- `db.get(TaskModel, task_id)`. -/
def get? (table : TaskTable) (id : Uuid) : Option TaskModel :=
  table.rows.find? fun t => t.id = id

/-- Update every row by a function that leaves the declared columns alone. -/
def modify (table : TaskTable) (f : TaskModel → TaskModel)
    (hf : ∀ t, (f t).declared = t.declared) : TaskTable where
  rows := table.rows.map f
  uniqueId := by
    have hid : (fun t => (f t).id) = fun t : TaskModel => t.id := by
      funext t
      exact TaskModel.id_of_declared (hf t)
    simpa [Function.comp_def, hid] using table.uniqueId
  uniqueStage := by
    have hstage : (fun t => (f t).stage) = fun t : TaskModel => t.stage := by
      funext t
      exact TaskModel.stage_of_declared (hf t)
    simpa [Function.comp_def, hstage] using table.uniqueStage

/-- A batch of new rows is inserted whole or, on a broken constraint, not at all. -/
def Insertable (table : TaskTable) (new : List TaskModel) : Prop :=
  ((table.rows ++ new).map (·.id)).Nodup ∧ ((table.rows ++ new).map (·.stage)).Nodup

instance (table : TaskTable) (new : List TaskModel) : Decidable (table.Insertable new) :=
  inferInstanceAs (Decidable (_ ∧ _))

def insert (table : TaskTable) (new : List TaskModel) (h : table.Insertable new) :
    TaskTable where
  rows := table.rows ++ new
  uniqueId := h.1
  uniqueStage := h.2

@[simp] theorem modify_rows (table : TaskTable) (f : TaskModel → TaskModel)
    (hf : ∀ t, (f t).declared = t.declared) : (table.modify f hf).rows = table.rows.map f := rfl

@[simp] theorem insert_rows (table : TaskTable) (new : List TaskModel)
    (h : table.Insertable new) : (table.insert new h).rows = table.rows ++ new := rfl

/-- A row is found by its id. -/
theorem get?_eq_some {table : TaskTable} {id : Uuid} {t : TaskModel} :
    table.get? id = some t ↔ t ∈ table.rows ∧ t.id = id := by
  constructor
  · intro h
    exact ⟨List.mem_of_find?_eq_some h, by simpa using List.find?_some h⟩
  · rintro ⟨hmem, rfl⟩
    have hsome : (table.get? t.id).isSome := by
      simp only [get?, List.find?_isSome]
      exact ⟨t, hmem, by simp⟩
    obtain ⟨u, hu⟩ := Option.isSome_iff_exists.mp hsome
    have huid : u.id = t.id := by simpa using List.find?_some hu
    have hut : u = t :=
      List.inj_on_of_nodup_map table.uniqueId (List.mem_of_find?_eq_some hu) hmem huid
    rw [hu, hut]

theorem get?_self {table : TaskTable} {t : TaskModel} (h : t ∈ table.rows) :
    table.get? t.id = some t :=
  get?_eq_some.mpr ⟨h, rfl⟩

/-- Rows with the same id are the same row. -/
theorem eq_of_id {table : TaskTable} {t u : TaskModel} (ht : t ∈ table.rows)
    (hu : u ∈ table.rows) (h : t.id = u.id) : t = u := by
  have ht' := get?_self ht
  have hu' := get?_self hu
  rw [h] at ht'
  exact Option.some.inj (ht'.symm.trans hu')

end TaskTable

/-- Post-processing tasks have `post_processing: True` in their config. -/
def isPostProcessingTask (task : TaskModel) : Bool := flag task.config "post_processing"

end Dalston.Model
